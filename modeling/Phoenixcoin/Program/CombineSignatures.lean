import Phoenixcoin.Program.EvalScript

/-!
# Merging signatures

`CombineSignatures` of `script.cpp`, by which `signrawtransaction` merges the `scriptSig`s of
several copies of a transaction. The vectors of the source are lists here, with the last value of a
stack first.
-/

set_option autoImplicit false

namespace Phoenixcoin.Program

open txnouttype

def PushAll (values : List valtype) : CScript := values.flatMap pushData

/-- The out parameters of `Solver`, whatever it returns: a multisig script with wrong counts has
its type and its solutions in them. -/
def solverOut (scriptPubKey : CScript) : txnouttype × List valtype :=
  match Solver scriptPubKey with
  | some out => out
  | none =>
    match matchTemplate scriptPubKey multisigTemplate with
    | some solutions => (TX_MULTISIG, solutions)
    | none => (TX_NONSTANDARD, [])

/-- The first byte of a vector that has one. -/
def frontByte (vch : valtype) : ℕ := (vch.headD 0).toNat

/-- The values of both stacks that are not empty, in the order of the vectors. -/
def nonEmptyValues (sigs1 sigs2 : Stack) : List valtype :=
  (sigs1.reverse ++ sigs2.reverse).filter fun v => v ≠ []

section Combine

variable (C : SignatureCrypto) (txTo : CTransaction) (nIn : ℕ)

/-! ## Multisig -/

/-- `std::set<valtype>` of these values. -/
def sigSet (values : List valtype) : List valtype :=
  values.dedup.insertionSort fun v w => v ≤ w

/-- The inner loop of `CombineMultisig`: the first key without a signature that this one is valid
under. -/
def findPubKey (scriptPubKey : CScript) (sig : valtype) :
    List valtype → List (valtype × valtype) → SignatureChecks →
      List (valtype × valtype) × SignatureChecks
  | [], sigsMap, checks => (sigsMap, checks)
  | pubkey :: pubkeys, sigsMap, checks =>
    if (sigsMap.lookup pubkey).isSome then findPubKey scriptPubKey sig pubkeys sigsMap checks
    else
      match CheckSig C sig pubkey scriptPubKey txTo nIn 0 none checks with
      | (true, checks) => ((pubkey, sig) :: sigsMap, checks)
      | (false, checks) => findPubKey scriptPubKey sig pubkeys sigsMap checks

variable (scriptPubKey : CScript)

def CombineMultisig (vSolutions : List valtype) (sigs1 sigs2 : Stack)
    (checks : SignatureChecks) : CScript × SignatureChecks :=
  let allsigs := sigSet (nonEmptyValues sigs1 sigs2)
  let nSigsRequired := frontByte (vSolutions.headD [])
  let pubkeys := (vSolutions.drop 1).take (vSolutions.length - 2)
  let (sigsMap, checks) := allsigs.foldl
    (fun (state : List (valtype × valtype) × SignatureChecks) sig =>
      findPubKey C txTo nIn scriptPubKey sig pubkeys state.1 state.2) ([], checks)
  let sigs := (pubkeys.filterMap fun pubkey => sigsMap.lookup pubkey).take nSigsRequired
  ([OP_0] ++ PushAll sigs ++ List.replicate (nSigsRequired - sigs.length) OP_0, checks)

/-! ## Hybrid multisig -/

/-- Consecutive values as pairs; a last one alone is left out. -/
def valuePairs : List valtype → List (valtype × valtype)
  | ec :: ml :: values => (ec, ml) :: valuePairs values
  | _ => []

/-- A key pair of the script with the signatures found for it (`have`, `ecSigFor`, `mlSigFor`). -/
abbrev KeySlot : Type := (valtype × valtype) × Option (valtype × valtype)

/-- The inner loop of `CombineHybridMultisig`: the first key pair without signatures that this pair
is valid under. -/
def placePair (scriptPubKey : CScript) (sigPair : valtype × valtype) :
    List KeySlot → SignatureChecks → List KeySlot × SignatureChecks
  | [], checks => ([], checks)
  | (pubPair, some found) :: slots, checks =>
    let (slots, checks) := placePair scriptPubKey sigPair slots checks
    ((pubPair, some found) :: slots, checks)
  | (pubPair, none) :: slots, checks =>
    match VerifyHybridSignature C sigPair pubPair scriptPubKey txTo nIn 0 checks with
    | (true, checks) => ((pubPair, some sigPair) :: slots, checks)
    | (false, checks) =>
      let (slots, checks) := placePair scriptPubKey sigPair slots checks
      ((pubPair, none) :: slots, checks)

def pushPairs (sigPairs : List (valtype × valtype)) : CScript :=
  sigPairs.flatMap fun sigPair => pushData sigPair.1 ++ pushData sigPair.2

def CombineHybridMultisig (vSolutions : List valtype)
    (sigs1 sigs2 : Stack) (checks : SignatureChecks) : CScript × SignatureChecks :=
  if vSolutions.length < 3 ∨ (vSolutions.headD []).length ≠ 1 then ([], checks)
  else
    let nN := frontByte (vSolutions.getLastD [])
    let nM := frontByte (vSolutions.headD [])
    if nN < 1 ∨ vSolutions.length ≠ 2 + nN * 2 then ([], checks)
    else if nM < 1 ∨ nM > nN then ([], checks)
    else
      let slots := (valuePairs (vSolutions.drop 1)).map fun pubPair => (pubPair, none)
      let (slots, checks) := (valuePairs (nonEmptyValues sigs1 sigs2)).foldl
        (fun (state : List KeySlot × SignatureChecks) sigPair =>
          placePair C txTo nIn scriptPubKey sigPair state.1 state.2) (slots, checks)
      (pushPairs ((slots.filterMap fun slot => slot.2).take nM), checks)

/-! ## All scripts -/

/-- The cases of the inner `CombineSignatures` other than a script hash. -/
def combinePlain (out : txnouttype × List valtype) (sigs1 sigs2 : Stack)
    (checks : SignatureChecks) : CScript × SignatureChecks :=
  match out.1 with
  | TX_NONSTANDARD | TX_HYBRID_PUBKEY | TX_HYBRID_PUBKEYHASH =>
    (PushAll (if sigs1.length ≥ sigs2.length then sigs1 else sigs2).reverse, checks)
  | TX_PUBKEY | TX_PUBKEYHASH =>
    (PushAll (if sigs1.getLastD [] = [] then sigs2 else sigs1).reverse, checks)
  | TX_MULTISIG => CombineMultisig C txTo nIn scriptPubKey out.2 sigs1 sigs2 checks
  | TX_HYBRID_MULTISIG => CombineHybridMultisig C txTo nIn scriptPubKey out.2 sigs1 sigs2 checks
  | TX_SCRIPTHASH => ([], checks)

/-- The inner `CombineSignatures`, on stacks. -/
def combineStacks (scriptPubKey : CScript) (out : txnouttype × List valtype) :
    Stack → Stack → SignatureChecks → CScript × SignatureChecks
  | sigs1, sigs2, checks =>
    if out.1 = TX_SCRIPTHASH then
      match sigs1 with
      | [] => (PushAll sigs2.reverse, checks)
      | spk :: rest1 =>
        if spk = [] then (PushAll sigs2.reverse, checks)
        else
          match sigs2 with
          | [] => (PushAll (spk :: rest1).reverse, checks)
          | last :: rest2 =>
            if last = [] then (PushAll (spk :: rest1).reverse, checks)
            else
              let (result, checks) := combineStacks spk (solverOut spk) rest1 rest2 checks
              (result ++ pushData spk, checks)
    else combinePlain C txTo nIn scriptPubKey out sigs1 sigs2 checks

/-- What a script leaves on the stack and in the cache, whether it fails or not. -/
def leftover (result : Except EvalFailure (Stack × SignatureChecks)) : Stack × SignatureChecks :=
  match result with
  | .ok left => left
  | .error failure => (failure.stack, failure.checks)

/-- The stack that `CombineSignatures` takes for a `scriptSig`: it is run for no transaction. -/
def evalStack (scriptSig : CScript) (checks : SignatureChecks) : Stack × SignatureChecks :=
  leftover (EvalScript C ⟨1, [], [], 0⟩ 0 0 [] scriptSig checks)

def CombineSignatures (scriptPubKey scriptSig1 scriptSig2 : CScript) (checks : SignatureChecks) :
    CScript × SignatureChecks :=
  let (stack1, checks) := evalStack C scriptSig1 checks
  let (stack2, checks) := evalStack C scriptSig2 checks
  combineStacks C txTo nIn scriptPubKey (solverOut scriptPubKey) stack1 stack2 checks

end Combine

end Phoenixcoin.Program
