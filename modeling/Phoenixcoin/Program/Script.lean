import Phoenixcoin.Program.Transaction

/-!
# Scripts and their standard forms

The serialised scripts of `script.h`: reading one instruction (`GetOp`), pushing data
(`operator<<`), `FindAndDelete`, `IsPushOnly`, `IsPayToScriptHash`, and the template matcher
`Solver` of `script.cpp` with `ExtractDestination`. The digests come from OpenSSL and are a
parameter.
-/

set_option autoImplicit false

namespace Phoenixcoin.Program

abbrev valtype : Type := List UInt8

abbrev opcodetype : Type := UInt8

/-! ## Numbers as bytes -/

/-- The first `width` bytes of a number, the least significant one first. -/
def toLittleEndian : ℕ → ℕ → valtype
  | 0, _ => []
  | width + 1, n => UInt8.ofNat (n % 256) :: toLittleEndian width (n / 256)

def ofLittleEndian : valtype → ℕ
  | [] => 0
  | b :: bytes => b.toNat + 256 * ofLittleEndian bytes

@[simp]
theorem length_toLittleEndian (width n : ℕ) : (toLittleEndian width n).length = width := by
  induction width generalizing n with
  | zero => rfl
  | succ width ih => simp [toLittleEndian, ih]

theorem ofLittleEndian_toLittleEndian {width n : ℕ} (h : n < 256 ^ width) :
    ofLittleEndian (toLittleEndian width n) = n := by
  induction width generalizing n with
  | zero =>
    have hn : n = 0 := by simpa using h
    rw [hn]
    rfl
  | succ width ih =>
    have hdiv : n / 256 < 256 ^ width := by
      rw [Nat.div_lt_iff_lt_mul (by norm_num)]
      rwa [pow_succ] at h
    simp only [toLittleEndian, ofLittleEndian, ih hdiv]
    rw [UInt8.toNat_ofNat_of_lt' (by simp [UInt8.size]; omega)]
    omega

theorem toLittleEndian_ofLittleEndian (bytes : valtype) :
    toLittleEndian bytes.length (ofLittleEndian bytes) = bytes := by
  induction bytes with
  | nil => rfl
  | cons b bytes ih =>
    have hb : b.toNat < 256 := b.toNat_lt
    have hmod : (b.toNat + 256 * ofLittleEndian bytes) % 256 = b.toNat := by omega
    have hdiv : (b.toNat + 256 * ofLittleEndian bytes) / 256 = ofLittleEndian bytes := by omega
    simp only [List.length_cons, toLittleEndian, ofLittleEndian, hmod, hdiv, ih]
    rw [UInt8.ofNat_toNat]

theorem toLittleEndian_of_length {width : ℕ} {bytes : valtype} (h : bytes.length = width) :
    toLittleEndian width (ofLittleEndian bytes) = bytes := by
  subst h
  exact toLittleEndian_ofLittleEndian bytes

theorem ofLittleEndian_lt (bytes : valtype) : ofLittleEndian bytes < 256 ^ bytes.length := by
  induction bytes with
  | nil => simp [ofLittleEndian]
  | cons b bytes ih =>
    have hb : b.toNat < 256 := b.toNat_lt
    rw [ofLittleEndian, List.length_cons]
    omega

/-! ## Digests -/

abbrev uint160 : Type := ℕ

abbrev CKeyID : Type := uint160

abbrev CScriptID : Type := uint160

abbrev CHybridKeyID : Type := uint160

/-- The digests of OpenSSL that scripts and key identifiers are made with. -/
structure Digests where
  RIPEMD160 : valtype → valtype
  SHA1 : valtype → valtype
  SHA256 : valtype → valtype
  length_RIPEMD160 : ∀ vch, (RIPEMD160 vch).length = 20
  length_SHA1 : ∀ vch, (SHA1 vch).length = 20
  length_SHA256 : ∀ vch, (SHA256 vch).length = 32

def Digests.Hash160 (D : Digests) (vch : valtype) : uint160 :=
  ofLittleEndian (D.RIPEMD160 (D.SHA256 vch))

def Digests.Hash (D : Digests) (vch : valtype) : uint256 :=
  ofLittleEndian (D.SHA256 (D.SHA256 vch))

/-- `uint160(const std::vector<unsigned char>&)`: a vector of another size gives zero. -/
def uint160OfBytes (vch : valtype) : uint160 :=
  if vch.length = 20 then ofLittleEndian vch else 0

/-! ## Opcodes -/

def OP_0 : opcodetype := 0x00
def OP_PUSHDATA1 : opcodetype := 0x4c
def OP_PUSHDATA2 : opcodetype := 0x4d
def OP_PUSHDATA4 : opcodetype := 0x4e
def OP_1NEGATE : opcodetype := 0x4f
def OP_1 : opcodetype := 0x51
def OP_16 : opcodetype := 0x60
def OP_NOP : opcodetype := 0x61
def OP_IF : opcodetype := 0x63
def OP_NOTIF : opcodetype := 0x64
def OP_ELSE : opcodetype := 0x67
def OP_ENDIF : opcodetype := 0x68
def OP_VERIFY : opcodetype := 0x69
def OP_RETURN : opcodetype := 0x6a
def OP_TOALTSTACK : opcodetype := 0x6b
def OP_FROMALTSTACK : opcodetype := 0x6c
def OP_2DROP : opcodetype := 0x6d
def OP_2DUP : opcodetype := 0x6e
def OP_3DUP : opcodetype := 0x6f
def OP_2OVER : opcodetype := 0x70
def OP_2ROT : opcodetype := 0x71
def OP_2SWAP : opcodetype := 0x72
def OP_IFDUP : opcodetype := 0x73
def OP_DEPTH : opcodetype := 0x74
def OP_DROP : opcodetype := 0x75
def OP_DUP : opcodetype := 0x76
def OP_NIP : opcodetype := 0x77
def OP_OVER : opcodetype := 0x78
def OP_PICK : opcodetype := 0x79
def OP_ROLL : opcodetype := 0x7a
def OP_ROT : opcodetype := 0x7b
def OP_SWAP : opcodetype := 0x7c
def OP_TUCK : opcodetype := 0x7d
def OP_CAT : opcodetype := 0x7e
def OP_SUBSTR : opcodetype := 0x7f
def OP_LEFT : opcodetype := 0x80
def OP_RIGHT : opcodetype := 0x81
def OP_SIZE : opcodetype := 0x82
def OP_INVERT : opcodetype := 0x83
def OP_AND : opcodetype := 0x84
def OP_OR : opcodetype := 0x85
def OP_XOR : opcodetype := 0x86
def OP_EQUAL : opcodetype := 0x87
def OP_EQUALVERIFY : opcodetype := 0x88
def OP_1ADD : opcodetype := 0x8b
def OP_1SUB : opcodetype := 0x8c
def OP_2MUL : opcodetype := 0x8d
def OP_2DIV : opcodetype := 0x8e
def OP_NEGATE : opcodetype := 0x8f
def OP_ABS : opcodetype := 0x90
def OP_NOT : opcodetype := 0x91
def OP_0NOTEQUAL : opcodetype := 0x92
def OP_ADD : opcodetype := 0x93
def OP_SUB : opcodetype := 0x94
def OP_MUL : opcodetype := 0x95
def OP_DIV : opcodetype := 0x96
def OP_MOD : opcodetype := 0x97
def OP_LSHIFT : opcodetype := 0x98
def OP_RSHIFT : opcodetype := 0x99
def OP_BOOLAND : opcodetype := 0x9a
def OP_BOOLOR : opcodetype := 0x9b
def OP_NUMEQUAL : opcodetype := 0x9c
def OP_NUMEQUALVERIFY : opcodetype := 0x9d
def OP_NUMNOTEQUAL : opcodetype := 0x9e
def OP_LESSTHAN : opcodetype := 0x9f
def OP_GREATERTHAN : opcodetype := 0xa0
def OP_LESSTHANOREQUAL : opcodetype := 0xa1
def OP_GREATERTHANOREQUAL : opcodetype := 0xa2
def OP_MIN : opcodetype := 0xa3
def OP_MAX : opcodetype := 0xa4
def OP_WITHIN : opcodetype := 0xa5
def OP_RIPEMD160 : opcodetype := 0xa6
def OP_SHA1 : opcodetype := 0xa7
def OP_SHA256 : opcodetype := 0xa8
def OP_HASH160 : opcodetype := 0xa9
def OP_HASH256 : opcodetype := 0xaa
def OP_CODESEPARATOR : opcodetype := 0xab
def OP_CHECKSIG : opcodetype := 0xac
def OP_CHECKSIGVERIFY : opcodetype := 0xad
def OP_CHECKMULTISIG : opcodetype := 0xae
def OP_CHECKMULTISIGVERIFY : opcodetype := 0xaf
def OP_NOP1 : opcodetype := 0xb0
def OP_NOP10 : opcodetype := 0xb9
def OP_CHECKHYBRIDSIG : opcodetype := 0xbc
def OP_CHECKHYBRIDSIGVERIFY : opcodetype := 0xbd
def OP_CHECKMULTIHYBRIDSIG : opcodetype := 0xbe
def OP_HASHHYBRID160 : opcodetype := 0xbf
def OP_DUPHYBRID : opcodetype := 0xca
def OP_SMALLINTEGER : opcodetype := 0xfa
def OP_PUBKEYS : opcodetype := 0xfb
def OP_PUBKEYHASH : opcodetype := 0xfd
def OP_PUBKEY : opcodetype := 0xfe

def DecodeOP_N (opcode : opcodetype) : ℕ :=
  if opcode = OP_0 then 0 else opcode.toNat - 0x50

/-! ## Reading and writing instructions -/

/-- The operand size of a push instruction and what follows the size bytes. -/
def operandSize (opcode : opcodetype) (pc : CScript) : Option (ℕ × CScript) :=
  if opcode < OP_PUSHDATA1 then some (opcode.toNat, pc)
  else
    let nBytes := if opcode = OP_PUSHDATA1 then 1 else if opcode = OP_PUSHDATA2 then 2 else 4
    if pc.length < nBytes then none
    else some (ofLittleEndian (pc.take nBytes), pc.drop nBytes)

/-- `CScript::GetOp2` from the position whose suffix is `pc`: the opcode, the data it pushes
and the suffix after the instruction; `none` is its failure. -/
def GetOp : CScript → Option (opcodetype × valtype × CScript)
  | [] => none
  | opcode :: pc =>
    if opcode ≤ OP_PUSHDATA4 then
      match operandSize opcode pc with
      | none => none
      | some (nSize, pc) =>
        if pc.length < nSize then none else some (opcode, pc.take nSize, pc.drop nSize)
    else some (opcode, [], pc)

theorem length_operandSize {opcode : opcodetype} {pc rest : CScript} {nSize : ℕ}
    (h : operandSize opcode pc = some (nSize, rest)) : rest.length ≤ pc.length := by
  have hdrop (n : ℕ) : (pc.drop n).length ≤ pc.length := by
    rw [List.length_drop]
    exact Nat.sub_le _ _
  unfold operandSize at h
  by_cases hshort : opcode < OP_PUSHDATA1
  · rw [if_pos hshort] at h
    cases h
    exact Nat.le_refl _
  · rw [if_neg hshort] at h
    generalize (if opcode = OP_PUSHDATA1 then 1 else if opcode = OP_PUSHDATA2 then 2 else 4) =
      nBytes at h
    by_cases hend : pc.length < nBytes
    · rw [if_pos hend] at h
      cases h
    · rw [if_neg hend] at h
      cases h
      exact hdrop nBytes

/-- Every instruction takes a byte at least. -/
theorem length_GetOp {pc rest : CScript} {opcode : opcodetype} {vch : valtype}
    (h : GetOp pc = some (opcode, vch, rest)) : rest.length < pc.length := by
  cases pc with
  | nil => cases h
  | cons b pc =>
    rw [GetOp] at h
    by_cases hpush : b ≤ OP_PUSHDATA4
    · rw [if_pos hpush] at h
      cases hsize : operandSize b pc with
      | none =>
        rw [hsize] at h
        cases h
      | some operand =>
        have hle := length_operandSize hsize
        rw [hsize] at h
        dsimp only at h
        by_cases hend : operand.2.length < operand.1
        · rw [if_pos hend] at h
          cases h
        · rw [if_neg hend] at h
          cases h
          rw [List.length_drop, List.length_cons]
          omega
    · rw [if_neg hpush] at h
      cases h
      exact Nat.lt_succ_self _

/-- What `operator<<` appends for a vector of bytes. -/
def pushData (b : valtype) : CScript :=
  if b.length < 0x4c then UInt8.ofNat b.length :: b
  else if b.length ≤ 0xff then OP_PUSHDATA1 :: UInt8.ofNat b.length :: b
  else if b.length ≤ 0xffff then OP_PUSHDATA2 :: toLittleEndian 2 b.length ++ b
  else OP_PUSHDATA4 :: toLittleEndian 4 b.length ++ b

/-- The loop of `FindAndDelete`; every round consumes a byte, so the length is fuel enough. -/
def findAndDeleteFrom : ℕ → CScript → CScript → CScript
  | 0, pc, _ => pc
  | fuel + 1, pc, b =>
    if b.isPrefixOf pc then findAndDeleteFrom fuel (pc.drop b.length) b
    else
      match GetOp pc with
      | none => pc
      | some (_, _, rest) => pc.take (pc.length - rest.length) ++ findAndDeleteFrom fuel rest b

def FindAndDelete (script b : CScript) : CScript :=
  if b = [] then script else findAndDeleteFrom script.length script b

def isPushOnlyFrom : ℕ → CScript → Bool
  | 0, _ => true
  | fuel + 1, pc =>
    if pc = [] then true
    else
      match GetOp pc with
      | none => false
      | some (opcode, _, rest) => if opcode > OP_16 then false else isPushOnlyFrom fuel rest

def IsPushOnly (script : CScript) : Bool := isPushOnlyFrom script.length script

def IsPayToScriptHash (script : CScript) : Bool :=
  script.length = 23 && script[0]? = some OP_HASH160 && script[1]? = some 0x14
    && script[22]? = some OP_EQUAL

/-! ## Standard forms -/

inductive txnouttype where
  | TX_NONSTANDARD
  | TX_PUBKEY
  | TX_PUBKEYHASH
  | TX_SCRIPTHASH
  | TX_MULTISIG
  | TX_HYBRID_PUBKEY
  | TX_HYBRID_PUBKEYHASH
  | TX_HYBRID_MULTISIG
deriving DecidableEq, Repr

open txnouttype

def ML_DSA_65_PUBKEY_SIZE : ℕ := 1952

def IsPubKeySize (vch : valtype) : Bool := 33 ≤ vch.length && vch.length ≤ 120

variable (scriptPubKey : CScript)

/-- The first block of `Solver`: `<ecdsa-pubkey> <mldsa-pubkey> OP_CHECKHYBRIDSIG`. -/
def solveHybridPubKey : Option (List valtype) :=
  match GetOp scriptPubKey with
  | none => none
  | some (_, ecdsaPub, pc) =>
    match GetOp pc with
    | none => none
    | some (_, mldsaPub, pc) =>
      match GetOp pc with
      | none => none
      | some (op3, _, pc) =>
        if pc = [] ∧ op3 = OP_CHECKHYBRIDSIG ∧ IsPubKeySize ecdsaPub then
          some [ecdsaPub, mldsaPub]
        else none

/-- An instruction that has to be the given opcode. -/
def expectOp (opcode : opcodetype) (pc : CScript) : Option CScript :=
  match GetOp pc with
  | none => none
  | some (opcode', _, pc) => if opcode' = opcode then some pc else none

/-- The second block of `Solver`:
`OP_DUPHYBRID OP_HASHHYBRID160 <hash> OP_EQUALVERIFY OP_CHECKHYBRIDSIG`. -/
def solveHybridPubKeyHash : Option (List valtype) := do
  let pc ← expectOp OP_DUPHYBRID scriptPubKey
  let pc ← expectOp OP_HASHHYBRID160 pc
  let (_, hash, pc) ← GetOp pc
  if hash.length = 20 then
    let pc ← expectOp OP_EQUALVERIFY pc
    let pc ← expectOp OP_CHECKHYBRIDSIG pc
    if pc = [] then some [hash] else none
  else none

/-- The loop over the key pairs of a hybrid multisig script. It gives the keys, the opcode
that ended the list and the suffix after it; the loop ends in any other way without a match. -/
def hybridKeyPairs : ℕ → CScript → Option (List valtype × opcodetype × CScript)
  | 0, _ => none
  | fuel + 1, pc =>
    match GetOp pc with
    | none => none
    | some (opcode, vch, pc) =>
      if IsPubKeySize vch then
        match GetOp pc with
        | none => none
        | some (_, vchML, pc) =>
          if vchML.length = ML_DSA_65_PUBKEY_SIZE then
            match hybridKeyPairs fuel pc with
            | none => none
            | some (keys, opcode, pc) => some (vch :: vchML :: keys, opcode, pc)
          else none
      else if OP_1 ≤ opcode ∧ opcode ≤ OP_16 then some ([], opcode, pc)
      else none

/-- The third block of `Solver`:
`m <pubEC1> <pubML1> ... <pubECn> <pubMLn> n OP_CHECKMULTIHYBRIDSIG`. -/
def solveHybridMultisig : Option (List valtype) :=
  match GetOp scriptPubKey with
  | none => none
  | some (opcode, _, pc) =>
    if opcode = OP_0 ∨ (OP_1 ≤ opcode ∧ opcode ≤ OP_16) then
      let m := DecodeOP_N opcode
      match hybridKeyPairs pc.length pc with
      | none => none
      | some (keys, opcode, pc) =>
        let n := DecodeOP_N opcode
        if n ≥ 1 ∧ keys.length % 2 = 0 ∧ keys.length / 2 = n
            ∧ expectOp OP_CHECKMULTIHYBRIDSIG pc = some [] ∧ m ≥ 1 ∧ m ≤ n then
          some ([UInt8.ofNat m] :: keys ++ [[UInt8.ofNat n]])
        else none
    else none

/-- The inner loop of the template scan at `OP_PUBKEYS`: the keys from the instruction just
read on, and the first instruction that is no key. -/
def takePubKeys : ℕ → opcodetype → valtype → CScript →
    Option (List valtype × opcodetype × valtype × CScript)
  | 0, _, _, _ => none
  | fuel + 1, opcode1, vch1, pc1 =>
    if IsPubKeySize vch1 then
      match GetOp pc1 with
      | none => none
      | some (opcode1, vch, pc1) =>
        match takePubKeys fuel opcode1 vch pc1 with
        | none => none
        | some (keys, opcode1, vch', pc1) => some (vch1 :: keys, opcode1, vch', pc1)
    else some ([], opcode1, vch1, pc1)

/-- One instruction of a script against one opcode of a template; the value is what is
appended to the solutions. -/
def matchOp (opcode1 : opcodetype) (vch1 : valtype) (opcode2 : opcodetype) :
    Option (List valtype) :=
  if opcode2 = OP_PUBKEY then
    if IsPubKeySize vch1 then some [vch1] else none
  else if opcode2 = OP_PUBKEYHASH then
    if vch1.length = 20 then some [vch1] else none
  else if opcode2 = OP_SMALLINTEGER then
    if opcode1 = OP_0 ∨ (OP_1 ≤ opcode1 ∧ opcode1 ≤ OP_16) then
      some [[UInt8.ofNat (DecodeOP_N opcode1)]]
    else none
  else if opcode1 = opcode2 ∧ vch1 = [] then some []
  else none

/-- The scan of one template: `script1` at `pc1` against the rest of the template. -/
def matchTemplate : CScript → List opcodetype → Option (List valtype)
  | pc1, [] => if pc1 = [] then some [] else none
  | pc1, opcode2 :: tplate =>
    match GetOp pc1 with
    | none => none
    | some (opcode1, vch1, pc1) =>
      if opcode2 = OP_PUBKEYS then
        match takePubKeys (pc1.length + 1) opcode1 vch1 pc1, tplate with
        | some (keys, opcode1, vch1, pc1), opcode2 :: tplate =>
          match matchOp opcode1 vch1 opcode2, matchTemplate pc1 tplate with
          | some solutions, some rest => some (keys ++ solutions ++ rest)
          | _, _ => none
        | _, _ => none
      else
        match matchOp opcode1 vch1 opcode2, matchTemplate pc1 tplate with
        | some solutions, some rest => some (solutions ++ rest)
        | _, _ => none

def pubKeyTemplate : List opcodetype := [OP_PUBKEY, OP_CHECKSIG]

def pubKeyHashTemplate : List opcodetype :=
  [OP_DUP, OP_HASH160, OP_PUBKEYHASH, OP_EQUALVERIFY, OP_CHECKSIG]

def multisigTemplate : List opcodetype :=
  [OP_SMALLINTEGER, OP_PUBKEYS, OP_SMALLINTEGER, OP_CHECKMULTISIG]

/-- The additional checks of `Solver` on a multisig script: `m`, `n` and the number of keys. -/
def multisigCountsOk (solutions : List valtype) : Bool :=
  match solutions.head?.bind List.head?, solutions.getLast?.bind List.head? with
  | some m, some n => ¬ (m < 1 ∨ n < 1 ∨ m > n ∨ solutions.length - 2 ≠ n.toNat)
  | _, _ => false

/-- `Solver`: the form of a script with the data it carries, `none` where it returns false. -/
def Solver : Option (txnouttype × List valtype) :=
  match solveHybridPubKey scriptPubKey with
  | some solutions => some (TX_HYBRID_PUBKEY, solutions)
  | none =>
  match solveHybridPubKeyHash scriptPubKey with
  | some solutions => some (TX_HYBRID_PUBKEYHASH, solutions)
  | none =>
  match solveHybridMultisig scriptPubKey with
  | some solutions => some (TX_HYBRID_MULTISIG, solutions)
  | none =>
  if IsPayToScriptHash scriptPubKey then
    some (TX_SCRIPTHASH, [(scriptPubKey.drop 2).take 20])
  else
    match matchTemplate scriptPubKey pubKeyTemplate with
    | some solutions => some (TX_PUBKEY, solutions)
    | none =>
    match matchTemplate scriptPubKey pubKeyHashTemplate with
    | some solutions => some (TX_PUBKEYHASH, solutions)
    | none =>
    match matchTemplate scriptPubKey multisigTemplate with
    | some solutions =>
      if multisigCountsOk solutions then some (TX_MULTISIG, solutions) else none
    | none => none

/-! ## Destinations -/

inductive CTxDestination where
  | key (id : CKeyID)
  | script (id : CScriptID)
  | hybridKey (id : CHybridKeyID)
deriving DecidableEq, Repr

/-- `ExtractDestination`: the one address that a script pays to. -/
def ExtractDestination (D : Digests) (scriptPubKey : CScript) : Option CTxDestination :=
  match Solver scriptPubKey with
  | some (TX_PUBKEY, vch :: _) => some (.key (D.Hash160 vch))
  | some (TX_PUBKEYHASH, vch :: _) => some (.key (uint160OfBytes vch))
  | some (TX_SCRIPTHASH, vch :: _) => some (.script (uint160OfBytes vch))
  | some (TX_HYBRID_PUBKEYHASH, vch :: _) => some (.hybridKey (uint160OfBytes vch))
  | _ => none

end Phoenixcoin.Program
