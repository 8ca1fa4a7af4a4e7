import Phoenixcoin.Program.BlockRules
import Phoenixcoin.Program.Serialize

/-!
# The script interpreter

`EvalScript` of `script.cpp` with what it calls: the numbers and truth values on the stack, the
signature hash, `CheckSig` with its cache, and the verification of hybrid signatures
(`hybrid_verify.h`). A stack is a list with its top first. A run that fails leaves a stack too,
so failure carries the stack it stopped with. Hash types are the unsigned reading of an `int`.
`VerifyScript` runs the scripts of an input; `GetSigOpCount`, the static count of signature
operations, stands at the end.
-/

set_option autoImplicit false

namespace Phoenixcoin.Program

open Lib

def MAX_SCRIPT_ELEMENT_SIZE : ℕ := 66000

def MAX_SCRIPT_SIZE : ℕ := 200000

def SIGHASH_ALL : ℕ := 1
def SIGHASH_NONE : ℕ := 2
def SIGHASH_SINGLE : ℕ := 3
def SIGHASH_ANYONECANPAY : ℕ := 0x80

def OP_INVALIDOPCODE : opcodetype := 0xff

/-! ## Values on the stack -/

def vchFalse : valtype := []

def vchTrue : valtype := [1]

def nMaxNumSize : ℕ := 4

/-- `CBigNum::getvch`. -/
def bnGetvch (bn : ℤ) : valtype :=
  if bn < 0 then
    toLittleEndian (mpiSize bn.natAbs) (bn.natAbs + 2 ^ (8 * mpiSize bn.natAbs - 1))
  else getvch bn.natAbs

/-- `CBigNum::setvch`: the highest bit is the sign. -/
def bnSetvch (vch : valtype) : ℤ :=
  let n := ofLittleEndian vch
  let signBit := 2 ^ (8 * vch.length - 1)
  if vch ≠ [] ∧ signBit ≤ n then -((n - signBit : ℕ) : ℤ) else n

/-- `CastToBigNum`; `none` is the exception it throws. -/
def CastToBigNum (vch : valtype) : Option ℤ :=
  if vch.length > nMaxNumSize then none else some (bnSetvch vch)

/-- `CastToBool`: a zero is false, also the one with a sign. -/
def CastToBool : valtype → Bool
  | [] => false
  | [b] => b ≠ 0 && b ≠ 0x80
  | b :: vch => b ≠ 0 || CastToBool vch

def bnBool (b : Prop) [Decidable b] : ℤ := if b then 1 else 0

variable (opcode : opcodetype)

/-- The inner `switch` over the opcodes with one operand. -/
def unaryNumeric : Option (ℤ → ℤ) :=
  if opcode = OP_1ADD then some fun bn => bn + 1
  else if opcode = OP_1SUB then some fun bn => bn - 1
  else if opcode = OP_NEGATE then some fun bn => -bn
  else if opcode = OP_ABS then some fun bn => if bn < 0 then -bn else bn
  else if opcode = OP_NOT then some fun bn => bnBool (bn = 0)
  else if opcode = OP_0NOTEQUAL then some fun bn => bnBool (bn ≠ 0)
  else none

/-- The inner `switch` over the opcodes with two operands. -/
def binaryNumeric : Option (ℤ → ℤ → ℤ) :=
  if opcode = OP_ADD then some fun bn1 bn2 => bn1 + bn2
  else if opcode = OP_SUB then some fun bn1 bn2 => bn1 - bn2
  else if opcode = OP_BOOLAND then some fun bn1 bn2 => bnBool (bn1 ≠ 0 ∧ bn2 ≠ 0)
  else if opcode = OP_BOOLOR then some fun bn1 bn2 => bnBool (bn1 ≠ 0 ∨ bn2 ≠ 0)
  else if opcode = OP_NUMEQUAL ∨ opcode = OP_NUMEQUALVERIFY then
    some fun bn1 bn2 => bnBool (bn1 = bn2)
  else if opcode = OP_NUMNOTEQUAL then some fun bn1 bn2 => bnBool (bn1 ≠ bn2)
  else if opcode = OP_LESSTHAN then some fun bn1 bn2 => bnBool (bn1 < bn2)
  else if opcode = OP_GREATERTHAN then some fun bn1 bn2 => bnBool (bn1 > bn2)
  else if opcode = OP_LESSTHANOREQUAL then some fun bn1 bn2 => bnBool (bn1 ≤ bn2)
  else if opcode = OP_GREATERTHANOREQUAL then some fun bn1 bn2 => bnBool (bn1 ≥ bn2)
  else if opcode = OP_MIN then some fun bn1 bn2 => if bn1 < bn2 then bn1 else bn2
  else if opcode = OP_MAX then some fun bn1 bn2 => if bn1 > bn2 then bn1 else bn2
  else none

def hashOp (D : Digests) (opcode : opcodetype) : Option (valtype → valtype) :=
  if opcode = OP_RIPEMD160 then some D.RIPEMD160
  else if opcode = OP_SHA1 then some D.SHA1
  else if opcode = OP_SHA256 then some D.SHA256
  else if opcode = OP_HASH160 then some fun vch => toLittleEndian 20 (D.Hash160 vch)
  else if opcode = OP_HASH256 then some fun vch => toLittleEndian 32 (D.Hash vch)
  else none

/-! ## Opcodes that need the stack only -/

abbrev Stack : Type := List valtype

/-- What an opcode makes of the stack; an error is `return(false)` with the stack as it is. -/
abbrev StackResult : Type := Except Stack Stack

def boolPush (fValue : Bool) (stack : Stack) : Stack :=
  (if fValue then vchTrue else vchFalse) :: stack

/-- `OP_VERIFY`, also the last step of the opcodes that end in `VERIFY`. -/
def opVerify : Stack → StackResult
  | [] => .error []
  | vch :: stack => if CastToBool vch then .ok stack else .error (vch :: stack)

/-- The push opcodes that hold their number in themselves. -/
def isPushNumber : Prop :=
  opcode = OP_1NEGATE ∨ (OP_1 ≤ opcode ∧ opcode ≤ OP_16)

instance : DecidablePred isPushNumber := fun _ => inferInstanceAs (Decidable (_ ∨ _))

def isNop : Prop :=
  opcode = OP_NOP ∨ (OP_NOP1 ≤ opcode ∧ opcode ≤ OP_NOP10)

instance : DecidablePred isNop := fun _ => inferInstanceAs (Decidable (_ ∨ _))

/-- `OP_PICK` and `OP_ROLL`. -/
def pickRoll : Stack → StackResult
  | vchN :: vch :: rest =>
    match CastToBigNum vchN with
    | none => .error (vchN :: vch :: rest)
    | some n =>
      let stack := vch :: rest
      if n < 0 then .error stack
      else
        match stack[n.toNat]? with
        | none => .error stack
        | some vch => .ok (vch :: if opcode = OP_ROLL then stack.eraseIdx n.toNat else stack)
  | stack => .error stack

/-- `OP_EQUAL` and `OP_EQUALVERIFY`. -/
def opEqual : Stack → StackResult
  | vch2 :: vch1 :: stack =>
    let stack := boolPush (vch1 = vch2) stack
    if opcode = OP_EQUALVERIFY then opVerify stack else .ok stack
  | stack => .error stack

def opUnary (f : ℤ → ℤ) : Stack → StackResult
  | vch :: stack =>
    match CastToBigNum vch with
    | none => .error (vch :: stack)
    | some bn => .ok (bnGetvch (f bn) :: stack)
  | stack => .error stack

def opBinary (f : ℤ → ℤ → ℤ) : Stack → StackResult
  | vch2 :: vch1 :: stack =>
    match CastToBigNum vch1, CastToBigNum vch2 with
    | some bn1, some bn2 =>
      let stack := bnGetvch (f bn1 bn2) :: stack
      if opcode = OP_NUMEQUALVERIFY then opVerify stack else .ok stack
    | _, _ => .error (vch2 :: vch1 :: stack)
  | stack => .error stack

/-- `OP_WITHIN`. -/
def opWithin : Stack → StackResult
  | vch3 :: vch2 :: vch1 :: stack =>
    match CastToBigNum vch1, CastToBigNum vch2, CastToBigNum vch3 with
    | some bn1, some bn2, some bn3 => .ok (boolPush (bn2 ≤ bn1 ∧ bn1 < bn3) stack)
    | _, _, _ => .error (vch3 :: vch2 :: vch1 :: stack)
  | stack => .error stack

/-- The opcodes that move values on the stack: what they make of it, if it is high enough. -/
def moveOp (stack : Stack) : Option Stack :=
  if opcode = OP_2DROP then
    match stack with | _ :: _ :: rest => some rest | _ => none
  else if opcode = OP_2DUP then
    match stack with | x2 :: x1 :: rest => some (x2 :: x1 :: x2 :: x1 :: rest) | _ => none
  else if opcode = OP_3DUP then
    match stack with
    | x3 :: x2 :: x1 :: rest => some (x3 :: x2 :: x1 :: x3 :: x2 :: x1 :: rest)
    | _ => none
  else if opcode = OP_2OVER then
    match stack with
    | x4 :: x3 :: x2 :: x1 :: rest => some (x2 :: x1 :: x4 :: x3 :: x2 :: x1 :: rest)
    | _ => none
  else if opcode = OP_2ROT then
    match stack with
    | x6 :: x5 :: x4 :: x3 :: x2 :: x1 :: rest =>
      some (x2 :: x1 :: x6 :: x5 :: x4 :: x3 :: rest)
    | _ => none
  else if opcode = OP_2SWAP then
    match stack with
    | x4 :: x3 :: x2 :: x1 :: rest => some (x2 :: x1 :: x4 :: x3 :: rest)
    | _ => none
  else if opcode = OP_IFDUP then
    match stack with
    | x :: rest => some (if CastToBool x then x :: x :: rest else x :: rest)
    | _ => none
  else if opcode = OP_DEPTH then some (bnGetvch stack.length :: stack)
  else if opcode = OP_DROP then
    match stack with | _ :: rest => some rest | _ => none
  else if opcode = OP_DUPHYBRID then
    match stack with
    | pubML :: pubEC :: x2 :: x1 :: rest =>
      some (pubML :: pubEC :: pubML :: pubEC :: x2 :: x1 :: rest)
    | _ => none
  else if opcode = OP_DUP then
    match stack with | x :: rest => some (x :: x :: rest) | _ => none
  else if opcode = OP_NIP then
    match stack with | x2 :: _ :: rest => some (x2 :: rest) | _ => none
  else if opcode = OP_OVER then
    match stack with | x2 :: x1 :: rest => some (x1 :: x2 :: x1 :: rest) | _ => none
  else if opcode = OP_ROT then
    match stack with | x3 :: x2 :: x1 :: rest => some (x1 :: x3 :: x2 :: rest) | _ => none
  else if opcode = OP_SWAP then
    match stack with | x2 :: x1 :: rest => some (x1 :: x2 :: rest) | _ => none
  else if opcode = OP_TUCK then
    match stack with | x2 :: x1 :: rest => some (x2 :: x1 :: x2 :: rest) | _ => none
  else if opcode = OP_SIZE then
    match stack with | x :: rest => some (bnGetvch x.length :: x :: rest) | _ => none
  else none

/-- The cases of the `switch` that need the stack only, with its `default`. -/
def stackOp (D : Digests) (opcode : opcodetype) (stack : Stack) : StackResult :=
  if isPushNumber opcode then .ok (bnGetvch (opcode.toNat - (OP_1.toNat - 1)) :: stack)
  else if isNop opcode then .ok stack
  else if opcode = OP_VERIFY then opVerify stack
  else if opcode = OP_RETURN then .error stack
  else if opcode = OP_PICK ∨ opcode = OP_ROLL then pickRoll opcode stack
  else if opcode = OP_EQUAL ∨ opcode = OP_EQUALVERIFY then opEqual opcode stack
  else if opcode = OP_WITHIN then opWithin stack
  else if opcode = OP_HASHHYBRID160 then
    match stack with
    | vchPubML :: vchPubEC :: x2 :: x1 :: rest =>
      .ok (toLittleEndian 20 (D.Hash160 (vchPubEC ++ vchPubML)) :: x2 :: x1 :: rest)
    | _ => .error stack
  else
    match unaryNumeric opcode, binaryNumeric opcode, hashOp D opcode with
    | some f, _, _ => opUnary f stack
    | none, some f, _ => opBinary opcode f stack
    | none, none, some f =>
      match stack with | vch :: rest => .ok (f vch :: rest) | [] => .error []
    | none, none, none =>
      match moveOp opcode stack with | some stack => .ok stack | none => .error stack

/-! ## The signature hash -/

/-- `ConstructSignatureHashPreimage`: the bytes that a signature of input `nIn` signs. -/
def ConstructSignatureHashPreimage (scriptCode : CScript) (txTo : CTransaction)
    (nIn nHashType : ℕ) : Option (List UInt8) :=
  if nIn ≥ txTo.vin.length then none
  else
    let scriptCodeTmp := FindAndDelete scriptCode [OP_CODESEPARATOR]
    -- Blank out other inputs' signatures, and their sequence numbers with the outputs.
    let fBlank := nHashType % 0x20 = SIGHASH_NONE ∨ nHashType % 0x20 = SIGHASH_SINGLE
    let vin := txTo.vin.mapIdx fun i txin =>
      { txin with
        scriptSig := if i = nIn then scriptCodeTmp else []
        nSequence := if i ≠ nIn ∧ fBlank then 0 else txin.nSequence }
    let vin :=
      if nHashType / SIGHASH_ANYONECANPAY % 2 = 1 then (vin.drop nIn).take 1 else vin
    if nHashType % 0x20 = SIGHASH_SINGLE ∧ nIn ≥ txTo.vout.length then none
    else
      let vout :=
        if nHashType % 0x20 = SIGHASH_NONE then []
        else if nHashType % 0x20 = SIGHASH_SINGLE then
          (txTo.vout.take (nIn + 1)).mapIdx fun i txout => if i < nIn then ⟨-1, []⟩ else txout
        else txTo.vout
      some (CTransaction.codec.write { txTo with vin, vout } ++ toLittleEndian 4 nHashType)

def BuildHybridMessage (tx_sighash_preimage : List UInt8) : List UInt8 :=
  ("BIT-HYBRID-SIG-v1".toList.map fun c => UInt8.ofNat c.toNat) ++ tx_sighash_preimage

/-! ## Signatures -/

/-- A hash with a signature and a public key that it verifies under. -/
abbrev sigdata_type : Type := uint256 × valtype × valtype

/-- What a run knows of signatures: the cache of the good ones, and how many verifications of
each kind were made. -/
structure SignatureChecks where
  signatureCache : Finset sigdata_type := ∅
  nECDSA : ℕ := 0
  nMLDSA : ℕ := 0

def SignatureChecks.total (checks : SignatureChecks) : ℕ := checks.nECDSA + checks.nMLDSA

/-- The signature schemes of secp256k1 and OpenSSL. `cacheSet` is `CSignatureCache::Set`: which
entries leave a full cache is random. -/
structure SignatureCrypto extends Digests where
  /-- `CKey::SetPubKey`: the bytes are a point of the curve. -/
  SetPubKey : valtype → Bool
  /-- `CKey::Verify` of the key with these bytes. -/
  Verify : valtype → uint256 → valtype → Bool
  /-- `EVP_DigestVerify` of ML-DSA-65: public key, signature, message. -/
  DigestVerify : valtype → valtype → List UInt8 → Bool
  cacheSet : sigdata_type → Finset sigdata_type → Finset sigdata_type
  cacheSet_subset : ∀ k cache, cacheSet k cache ⊆ insert k cache

def ECDSA_PUBKEY_SIZE : ℕ := 33

/-- `ML_DSA_65_SIG_SIZE`, the hash type byte included. -/
def ML_DSA_65_SIG_SIZE : ℕ := 3310

/-- `vch.back()`. -/
def backByte (vch : valtype) : ℕ := (vch.getLastD 0).toNat

variable (C : SignatureCrypto)

def SignatureHash (D : Digests) (scriptCode : CScript) (txTo : CTransaction)
    (nIn nHashType : ℕ) : uint256 :=
  match ConstructSignatureHashPreimage scriptCode txTo nIn nHashType with
  | some preimage => D.Hash preimage
  | none => 1

/-- The part of `CheckSig` from the cache on. -/
def verifyCached (sighash : uint256) (sig vchPubKey : valtype) (checks : SignatureChecks) :
    Bool × SignatureChecks :=
  if (sighash, sig, vchPubKey) ∈ checks.signatureCache then (true, checks)
  else if ¬ C.SetPubKey vchPubKey then (false, checks)
  else
    let checks := { checks with nECDSA := checks.nECDSA + 1 }
    if ¬ C.Verify vchPubKey sighash sig then (false, checks)
    else
      (true, { checks with
        signatureCache := C.cacheSet (sighash, sig, vchPubKey) checks.signatureCache })

def CheckSig (vchSig vchPubKey : valtype) (scriptCode : CScript) (txTo : CTransaction)
    (nIn nHashType : ℕ) (precomputedSighash : Option uint256) (checks : SignatureChecks) :
    Bool × SignatureChecks :=
  if vchSig = [] then (false, checks)
  else
    let sigHashType := if nHashType ≠ 0 then nHashType else backByte vchSig
    if sigHashType ≠ backByte vchSig then (false, checks)
    else
      let sig := vchSig.dropLast
      if sig.length < 8 then (false, checks)
      else
        let sighash := precomputedSighash.getD
          (SignatureHash C.toDigests scriptCode txTo nIn sigHashType)
        verifyCached C sighash sig vchPubKey checks

def VerifyMLDSA (mldsaSig mldsaPubKey : valtype) (msg : List UInt8) (checks : SignatureChecks) :
    Bool × SignatureChecks :=
  if mldsaSig.length ≠ ML_DSA_65_SIG_SIZE - 1 then (false, checks)
  else if mldsaPubKey.length ≠ ML_DSA_65_PUBKEY_SIZE then (false, checks)
  else if msg = [] then (false, checks)
  else (C.DigestVerify mldsaPubKey mldsaSig msg, { checks with nMLDSA := checks.nMLDSA + 1 })

/-- Both halves of a hybrid signature over one preimage: `CheckSig`, and `VerifyMLDSA` if that
succeeded. -/
def checkHybridPair (sigPair pubPair : valtype × valtype) (scriptCode : CScript)
    (txTo : CTransaction) (nIn nHashType : ℕ) (preimage : List UInt8)
    (checks : SignatureChecks) : Bool × SignatureChecks :=
  match CheckSig C sigPair.1 pubPair.1 scriptCode txTo nIn nHashType
      (some (C.Hash preimage)) checks with
  | (false, checks) => (false, checks)
  | (true, checks) =>
    VerifyMLDSA C sigPair.2.dropLast pubPair.2 (BuildHybridMessage preimage) checks

def VerifyHybridSignature (sigPair pubPair : valtype × valtype) (scriptCode : CScript)
    (txTo : CTransaction) (nIn nHashType : ℕ) (checks : SignatureChecks) :
    Bool × SignatureChecks :=
  if sigPair.1 = [] ∨ sigPair.2 = [] ∨ pubPair.1 = [] ∨ pubPair.2 = [] then (false, checks)
  else if pubPair.1.length ≠ ECDSA_PUBKEY_SIZE then (false, checks)
  else if pubPair.2.length ≠ ML_DSA_65_PUBKEY_SIZE then (false, checks)
  else if backByte sigPair.1 ≠ backByte sigPair.2 then (false, checks)
  else if nHashType ≠ 0 ∧ backByte sigPair.1 ≠ nHashType then (false, checks)
  else
    match ConstructSignatureHashPreimage scriptCode txTo nIn (backByte sigPair.1) with
    | none => (false, checks)
    | some preimage =>
      checkHybridPair C sigPair pubPair scriptCode txTo nIn (backByte sigPair.1) preimage checks

/-! ## Opcodes that check signatures -/

/-- `return(false)` with the stack and the signature checks as they are. -/
structure EvalFailure where
  stack : Stack
  checks : SignatureChecks

/-- The loop of `OP_CHECKMULTISIG` over the keys, with the signatures still to be matched. -/
def matchSignatures (scriptCode : CScript) (txTo : CTransaction) (nIn nHashType : ℕ) :
    List valtype → List valtype → SignatureChecks → Bool × SignatureChecks
  | [], _, checks => (true, checks)
  | _ :: _, [], checks => (false, checks)
  | vchSig :: sigs, vchPubKey :: keys, checks =>
    let (fMatch, checks) := CheckSig C vchSig vchPubKey scriptCode txTo nIn nHashType none checks
    let sigs := if fMatch then sigs else vchSig :: sigs
    if sigs.length > keys.length then (false, checks)
    else matchSignatures scriptCode txTo nIn nHashType sigs keys checks

/-- The loop of `OP_CHECKMULTIHYBRIDSIG` over the key pairs. -/
def matchHybridSignatures (scriptCode : CScript) (txTo : CTransaction) (nIn sigHashType : ℕ)
    (preimage : List UInt8) :
    List (valtype × valtype) → List (valtype × valtype) → SignatureChecks → Bool × SignatureChecks
  | [], _, checks => (true, checks)
  | _ :: _, [], checks => (false, checks)
  | sigPair :: sigs, pubPair :: keys, checks =>
    let (fMatch, checks) :=
      checkHybridPair C sigPair pubPair scriptCode txTo nIn sigHashType preimage checks
    matchHybridSignatures scriptCode txTo nIn sigHashType preimage
      (if fMatch then sigs else sigPair :: sigs) keys checks

/-- Adjacent entries of the stack as pairs, the lower one (ECDSA) first. -/
def hybridPairs : Stack → List (valtype × valtype)
  | vchML :: vchEC :: stack => (vchEC, vchML) :: hybridPairs stack
  | _ => []

/-- A count on the stack, between zero and `bound`. -/
def stackCount (bound : ℕ) : Stack → Option (ℕ × Stack)
  | [] => none
  | vch :: stack =>
    match CastToBigNum vch with
    | none => none
    | some n => if n < 0 ∨ n > bound then none else some (n.toNat, stack)

def dropSignatures (scriptCode : CScript) (sigs : List valtype) : CScript :=
  sigs.foldl (fun scriptCode vchSig => FindAndDelete scriptCode (pushData vchSig)) scriptCode

/-- The state of a run: `pbegincodehash` is the script from the last code separator on. -/
structure EvalState where
  stack : Stack
  altstack : Stack := []
  vfExec : List Bool := []
  nOpCount : ℕ := 0
  pbegincodehash : CScript
  checks : SignatureChecks

namespace EvalState

variable (st : EvalState)

def fail : Except EvalFailure EvalState := .error ⟨st.stack, st.checks⟩

/-- What an opcode on the stack alone makes of the state. -/
def onStack (result : StackResult) : Except EvalFailure EvalState :=
  match result with
  | .ok stack => .ok { st with stack }
  | .error stack => .error ⟨stack, st.checks⟩

/-- The end of a signature check: its result replaces the operands; the opcodes that end in
`VERIFY` take it away again or fail. -/
def pushResult (fVerify : Bool) (rest : Stack) (result : Bool × SignatureChecks) :
    Except EvalFailure EvalState :=
  let st := { st with checks := result.2 }
  st.onStack (if fVerify then opVerify (boolPush result.1 rest) else .ok (boolPush result.1 rest))

variable (txTo : CTransaction) (nIn nHashType : ℕ)

/-- `OP_CHECKSIG` and `OP_CHECKSIGVERIFY`. -/
def opCheckSig (fVerify : Bool) : Except EvalFailure EvalState :=
  match st.stack with
  | vchPubKey :: vchSig :: rest =>
    let scriptCode := dropSignatures st.pbegincodehash [vchSig]
    st.pushResult fVerify rest
      (CheckSig C vchSig vchPubKey scriptCode txTo nIn nHashType none st.checks)
  | _ => st.fail

/-- `OP_CHECKMULTISIG` and `OP_CHECKMULTISIGVERIFY`. One value more than the signatures and the
keys is taken from the stack. -/
def opCheckMultisig (fVerify : Bool) : Except EvalFailure EvalState :=
  match stackCount 20 st.stack with
  | none => st.fail
  | some (nKeysCount, stack₁) =>
    let st := { st with nOpCount := st.nOpCount + nKeysCount }
    if st.nOpCount > 201 then st.fail
    else
      match stackCount nKeysCount (stack₁.drop nKeysCount) with
      | none => st.fail
      | some (nSigsCount, stack₂) =>
        if stack₂.length < nSigsCount + 1 then st.fail
        else
          let sigs := stack₂.take nSigsCount
          let scriptCode := dropSignatures st.pbegincodehash sigs
          st.pushResult fVerify (stack₂.drop (nSigsCount + 1))
            (matchSignatures C scriptCode txTo nIn nHashType sigs (stack₁.take nKeysCount)
              st.checks)

/-- `OP_CHECKHYBRIDSIG` and `OP_CHECKHYBRIDSIGVERIFY`. -/
def opCheckHybridSig (fVerify : Bool) : Except EvalFailure EvalState :=
  match st.stack with
  | vchPubKeyML :: vchPubKeyEC :: vchSigML :: vchSigEC :: rest =>
    let scriptCode := dropSignatures st.pbegincodehash [vchSigEC, vchSigML]
    st.pushResult fVerify rest
      (VerifyHybridSignature C (vchSigEC, vchSigML) (vchPubKeyEC, vchPubKeyML) scriptCode txTo
        nIn nHashType st.checks)
  | _ => st.fail

/-- The hash type that all signatures of a hybrid multisig have to carry. -/
def commonHashType : List (valtype × valtype) → Option ℕ
  | [] => none
  | sigPair :: sigs =>
    let sigHashType := backByte sigPair.1
    if backByte sigPair.2 ≠ sigHashType then none
    else if nHashType ≠ 0 ∧ sigHashType ≠ nHashType then none
    else if sigs.all fun other =>
        backByte other.1 = sigHashType ∧ backByte other.2 = sigHashType then
      some sigHashType
    else none

/-- `OP_CHECKMULTIHYBRIDSIG` with at least one signature: the part after the counts. -/
def checkMultiHybrid (sigs keys : List (valtype × valtype)) (rest : Stack) :
    Except EvalFailure EvalState :=
  if sigs.any fun sigPair => sigPair.1 = [] ∨ sigPair.2 = [] then st.fail
  else
    let scriptCode :=
      dropSignatures st.pbegincodehash (sigs.flatMap fun sigPair => [sigPair.1, sigPair.2])
    match commonHashType nHashType sigs with
    | none => st.fail
    | some sigHashType =>
      match ConstructSignatureHashPreimage scriptCode txTo nIn sigHashType with
      | none => st.fail
      | some preimage =>
        st.pushResult false rest
          (matchHybridSignatures C scriptCode txTo nIn sigHashType preimage sigs keys st.checks)

/-- `OP_CHECKMULTIHYBRIDSIG`. -/
def opCheckMultiHybridSig : Except EvalFailure EvalState :=
  match stackCount 20 st.stack with
  | none => st.fail
  | some (nKeysCount, stack₁) =>
    let st := { st with nOpCount := st.nOpCount + nKeysCount }
    if st.nOpCount > 201 then st.fail
    else
      match stackCount nKeysCount (stack₁.drop (nKeysCount * 2)) with
      | none => st.fail
      | some (nSigsCount, stack₂) =>
        if stack₂.length < nSigsCount * 2 then st.fail
        else if nSigsCount = 0 then st.onStack (.ok (vchTrue :: stack₂))
        else
          st.checkMultiHybrid C txTo nIn nHashType (hybridPairs (stack₂.take (nSigsCount * 2)))
            (hybridPairs (stack₁.take (nKeysCount * 2))) (stack₂.drop (nSigsCount * 2))

/-- `stacktop(-i)`, which is `stack.at(stack.size() - i)`; `none` is `std::out_of_range`. -/
def stacktop (stack : Stack) (i : ℕ) : Option valtype :=
  if 0 < i ∧ i ≤ stack.length then stack[i - 1]? else none

/-- The pair whose ML-DSA half is `2 * k` entries below `stacktop(-base)`. -/
def stackPair (stack : Stack) (base k : ℕ) : Option (valtype × valtype) := do
  let vchEC ← stacktop stack (base + k * 2 + 1)
  let vchML ← stacktop stack (base + k * 2)
  return (vchEC, vchML)

/-- `OP_CHECKMULTIHYBRIDSIG` with the stack offsets as the source computes them; it reads all
pairs that the loops of the source read. `none` is a read outside of the stack. -/
def opCheckMultiHybridSigAt : Option (Except EvalFailure EvalState) :=
  let i := 1
  if st.stack.length < i then some st.fail
  else do
    let vchKeysCount ← stacktop st.stack i
    match CastToBigNum vchKeysCount with
    | none => some st.fail
    | some n =>
      if n < 0 ∨ n > 20 then some st.fail
      else
        let nKeysCount := n.toNat
        let st := { st with nOpCount := st.nOpCount + nKeysCount }
        if st.nOpCount > 201 then some st.fail
        else
          let ikey := i + 1
          let i := ikey + nKeysCount * 2
          if st.stack.length < i then some st.fail
          else do
            let vchSigsCount ← stacktop st.stack i
            match CastToBigNum vchSigsCount with
            | none => some st.fail
            | some m =>
              if m < 0 ∨ m > nKeysCount then some st.fail
              else
                let nSigsCount := m.toNat
                let isig := i + 1
                let i := i + nSigsCount * 2
                if st.stack.length < i then some st.fail
                else if nSigsCount = 0 then
                  some (st.onStack (.ok (vchTrue :: st.stack.drop i)))
                else do
                  let sigs ← (List.range nSigsCount).mapM (stackPair st.stack isig)
                  let keys ← (List.range nKeysCount).mapM (stackPair st.stack ikey)
                  some (st.checkMultiHybrid C txTo nIn nHashType sigs keys (st.stack.drop i))

/-! ## The loop -/

/-- All enclosing branches are taken. -/
def fExec : Bool := st.vfExec.all id

/-- `OP_IF` and `OP_NOTIF`. -/
def opIf (opcode : opcodetype) : Except EvalFailure EvalState :=
  if st.fExec then
    match st.stack with
    | [] => st.fail
    | vch :: stack =>
      let fValue := if opcode = OP_NOTIF then !CastToBool vch else CastToBool vch
      .ok { st with stack, vfExec := fValue :: st.vfExec }
  else .ok { st with vfExec := false :: st.vfExec }

/-- The `switch` over the opcodes; `pc` is the script after this one. -/
def execOp (opcode : opcodetype) (pc : CScript) : Except EvalFailure EvalState :=
  if opcode = OP_IF ∨ opcode = OP_NOTIF then st.opIf opcode
  else if opcode = OP_ELSE then
    match st.vfExec with
    | [] => st.fail
    | fValue :: vfExec => .ok { st with vfExec := (!fValue) :: vfExec }
  else if opcode = OP_ENDIF then
    match st.vfExec with
    | [] => st.fail
    | _ :: vfExec => .ok { st with vfExec }
  else if opcode = OP_TOALTSTACK then
    match st.stack with
    | [] => st.fail
    | vch :: stack => .ok { st with stack, altstack := vch :: st.altstack }
  else if opcode = OP_FROMALTSTACK then
    match st.altstack with
    | [] => st.fail
    | vch :: altstack => .ok { st with stack := vch :: st.stack, altstack }
  else if opcode = OP_CODESEPARATOR then .ok { st with pbegincodehash := pc }
  else if opcode = OP_CHECKSIG ∨ opcode = OP_CHECKSIGVERIFY then
    st.opCheckSig C txTo nIn nHashType (opcode = OP_CHECKSIGVERIFY)
  else if opcode = OP_CHECKMULTISIG ∨ opcode = OP_CHECKMULTISIGVERIFY then
    st.opCheckMultisig C txTo nIn nHashType (opcode = OP_CHECKMULTISIGVERIFY)
  else if opcode = OP_CHECKHYBRIDSIG ∨ opcode = OP_CHECKHYBRIDSIGVERIFY then
    st.opCheckHybridSig C txTo nIn nHashType (opcode = OP_CHECKHYBRIDSIGVERIFY)
  else if opcode = OP_CHECKMULTIHYBRIDSIG then st.opCheckMultiHybridSig C txTo nIn nHashType
  else st.onStack (stackOp C.toDigests opcode st.stack)

/-- The opcodes that a script must not even contain. -/
def isDisabled (opcode : opcodetype) : Prop :=
  opcode ∈ [OP_CAT, OP_SUBSTR, OP_LEFT, OP_RIGHT, OP_INVERT, OP_AND, OP_OR, OP_XOR, OP_2MUL,
    OP_2DIV, OP_MUL, OP_DIV, OP_MOD, OP_LSHIFT, OP_RSHIFT]

instance : DecidablePred isDisabled := fun _ => inferInstanceAs (Decidable (_ ∈ _))

/-- One instruction that has been read: it is counted, then executed or skipped. -/
def step (opcode : opcodetype) (vchPushValue : valtype) (pc : CScript) :
    Except EvalFailure EvalState :=
  if vchPushValue.length > MAX_SCRIPT_ELEMENT_SIZE then st.fail
  else if opcode > OP_16 ∧ st.nOpCount + 1 > 201 then st.fail
  else
    let st := if opcode > OP_16 then { st with nOpCount := st.nOpCount + 1 } else st
    if isDisabled opcode then st.fail
    else if st.fExec ∧ opcode ≤ OP_PUSHDATA4 then .ok { st with stack := vchPushValue :: st.stack }
    else if st.fExec ∨ (OP_IF ≤ opcode ∧ opcode ≤ OP_ENDIF) then
      st.execOp C txTo nIn nHashType opcode pc
    else .ok st

/-- `step`, and the size limits after it. -/
def boundedStep (opcode : opcodetype) (vchPushValue : valtype) (pc : CScript) :
    Except EvalFailure EvalState :=
  match st.step C txTo nIn nHashType opcode vchPushValue pc with
  | .error failure => .error failure
  | .ok st => if st.stack.length + st.altstack.length > 1000 then st.fail else .ok st

end EvalState

section Run

variable (txTo : CTransaction) (nIn nHashType : ℕ)

/-- The loop of `EvalScript`; every round reads a byte, so the length is fuel enough. -/
def evalFrom : ℕ → CScript → EvalState → Except EvalFailure EvalState
  | 0, _, st => .ok st
  | fuel + 1, pc, st =>
    if pc = [] then .ok st
    else
      match GetOp pc with
      | none => st.fail
      | some (opcode, vchPushValue, pc) =>
        match st.boundedStep C txTo nIn nHashType opcode vchPushValue pc with
        | .error failure => .error failure
        | .ok st => evalFrom fuel pc st

def EvalScript (stack : Stack) (script : CScript) (checks : SignatureChecks) :
    Except EvalFailure (Stack × SignatureChecks) :=
  if script.length > MAX_SCRIPT_SIZE then .error ⟨stack, checks⟩
  else
    match evalFrom C txTo nIn nHashType script.length script
        { stack, pbegincodehash := script, checks } with
    | .error failure => .error failure
    | .ok st => if st.vfExec ≠ [] then .error ⟨st.stack, st.checks⟩ else .ok (st.stack, st.checks)

/-- The last step of a script: the value on top of the stack is true. -/
def stackTrue : Stack → Bool
  | [] => false
  | vch :: _ => CastToBool vch

/-- The third step of `VerifyScript`: the redeem script on the rest of the stack. -/
def verifyRedeemScript (stackCopy : Stack) (checks : SignatureChecks) : Bool × SignatureChecks :=
  match stackCopy with
  | [] => (false, checks)
  | pubKeySerialized :: stackCopy =>
    match EvalScript C txTo nIn nHashType stackCopy pubKeySerialized checks with
    | .error failure => (false, failure.checks)
    | .ok (stackCopy, checks) => (stackTrue stackCopy, checks)

def VerifyScript (scriptSig scriptPubKey : CScript) (fValidatePayToScriptHash : Bool)
    (checks : SignatureChecks) : Bool × SignatureChecks :=
  match EvalScript C txTo nIn nHashType [] scriptSig checks with
  | .error failure => (false, failure.checks)
  | .ok (stackCopy, checks) =>
    match EvalScript C txTo nIn nHashType stackCopy scriptPubKey checks with
    | .error failure => (false, failure.checks)
    | .ok (stack, checks) =>
      if ¬ stackTrue stack then (false, checks)
      else if fValidatePayToScriptHash ∧ IsPayToScriptHash scriptPubKey then
        if ¬ IsPushOnly scriptSig then (false, checks)
        else verifyRedeemScript C txTo nIn nHashType stackCopy checks
      else (true, checks)

end Run

/-! ## The static count -/

/-- What one opcode adds to `GetSigOpCount`. -/
def sigOps (fAccurate : Bool) (lastOpcode opcode : opcodetype) : ℕ :=
  if opcode = OP_CHECKSIG ∨ opcode = OP_CHECKSIGVERIFY then 1
  else if opcode = OP_CHECKMULTISIG ∨ opcode = OP_CHECKMULTISIGVERIFY then
    if fAccurate ∧ OP_1 ≤ lastOpcode ∧ lastOpcode ≤ OP_16 then DecodeOP_N lastOpcode else 20
  else if opcode = OP_CHECKHYBRIDSIG ∨ opcode = OP_CHECKHYBRIDSIGVERIFY then 2
  else if opcode = OP_CHECKMULTIHYBRIDSIG then
    if fAccurate ∧ OP_1 ≤ lastOpcode ∧ lastOpcode ≤ OP_16 then DecodeOP_N lastOpcode * 2
    else 20 * 2
  else 0

/-- The loop of `GetSigOpCount`; the count `n` is an `unsigned int`. -/
def getSigOpCountFrom (fAccurate : Bool) : ℕ → opcodetype → CScript → ℕ → ℕ
  | 0, _, _, n => n
  | fuel + 1, lastOpcode, pc, n =>
    if pc = [] then n
    else
      match GetOp pc with
      | none => n
      | some (opcode, _, pc) =>
        getSigOpCountFrom fAccurate fuel opcode pc
          ((n + sigOps fAccurate lastOpcode opcode) % 2 ^ 32)

def GetSigOpCount (fAccurate : Bool) (script : CScript) : ℕ :=
  getSigOpCountFrom fAccurate script.length OP_INVALIDOPCODE script 0

/-- The loop of `GetSigOpCount(const CScript&)` for the data of the last push; `none` is its
`return 0`. -/
def lastPushFrom : ℕ → CScript → valtype → Option valtype
  | 0, _, data => some data
  | fuel + 1, pc, data =>
    if pc = [] then some data
    else
      match GetOp pc with
      | none => none
      | some (opcode, data, pc) => if opcode > OP_16 then none else lastPushFrom fuel pc data

/-- `CScript::GetSigOpCount(const CScript&)`: for a script hash, the count of the redeem script
that `scriptSig` pushes last. -/
def GetSigOpCountWith (scriptPubKey scriptSig : CScript) : ℕ :=
  if ¬ IsPayToScriptHash scriptPubKey then GetSigOpCount true scriptPubKey
  else
    match lastPushFrom scriptSig.length scriptSig [] with
    | none => 0
    | some subscript => GetSigOpCount true subscript

end Phoenixcoin.Program
