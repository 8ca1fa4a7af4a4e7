import Phoenixcoin.Lib.Matching
import Phoenixcoin.Analysis.SigOpCounts

/-!
# Hybrid signatures in scripts

What the two opcodes for hybrid signatures accept, in terms of the signature schemes alone. The
signature cache does not matter as long as it holds valid signatures only, which every run keeps.
The single opcode and the multisig opcode share the check of a pair; they differ in the length of
the ECDSA key, which only the single one looks at.
-/

set_option autoImplicit false

namespace Phoenixcoin.Analysis

open Program Lib EvalState List Option

/-! ## The cache -/

def CacheSound (C : SignatureCrypto) (checks : SignatureChecks) : Prop :=
  ∀ k ∈ checks.signatureCache, C.SetPubKey k.2.2 = true ∧ C.Verify k.2.2 k.1 k.2.1 = true

theorem cacheSound_empty (C : SignatureCrypto) : CacheSound C {} := by
  intro k hk
  exact absurd hk (Finset.notMem_empty k)

def ecVerifies (C : SignatureCrypto) (sighash : uint256) (vchSig vchPubKey : valtype) : Bool :=
  8 ≤ vchSig.dropLast.length && C.SetPubKey vchPubKey && C.Verify vchPubKey sighash vchSig.dropLast

/-- The ML-DSA half of a signature, the hash type byte included, is valid. -/
def mldsaVerifies (C : SignatureCrypto) (preimage : List UInt8) (vchSig vchPubKey : valtype) :
    Bool :=
  vchSig.dropLast.length = ML_DSA_65_SIG_SIZE - 1 && vchPubKey.length = ML_DSA_65_PUBKEY_SIZE &&
    C.DigestVerify vchPubKey vchSig.dropLast (BuildHybridMessage preimage)

/-- Both halves are valid under the keys of a pair. -/
def pairVerifies (C : SignatureCrypto) (preimage : List UInt8)
    (sigPair pubPair : valtype × valtype) : Bool :=
  ecVerifies C (C.Hash preimage) sigPair.1 pubPair.1 && mldsaVerifies C preimage sigPair.2 pubPair.2

section Pair

variable {C : SignatureCrypto} {checks : SignatureChecks} (scriptCode : CScript)
  (txTo : CTransaction) (nIn nHashType : ℕ)

theorem verifyCached_spec (hsound : CacheSound C checks) (sighash : uint256)
    (sig vchPubKey : valtype) :
    (verifyCached C sighash sig vchPubKey checks).1 =
        (C.SetPubKey vchPubKey && C.Verify vchPubKey sighash sig) ∧
      CacheSound C (verifyCached C sighash sig vchPubKey checks).2 := by
  unfold verifyCached
  by_cases hcached : (sighash, sig, vchPubKey) ∈ checks.signatureCache
  · rw [if_pos hcached]
    obtain ⟨hset, hverify⟩ := hsound _ hcached
    refine ⟨?_, hsound⟩
    rw [hset, hverify]
    rfl
  · rw [if_neg hcached]
    by_cases hset : C.SetPubKey vchPubKey = true
    · rw [if_neg (not_not.mpr hset)]
      by_cases hverify : C.Verify vchPubKey sighash sig = true
      · rw [if_neg (not_not.mpr hverify)]
        refine ⟨by rw [hset, hverify]; rfl, ?_⟩
        intro k hk
        rcases Finset.mem_insert.mp (C.cacheSet_subset _ _ hk) with rfl | hk
        · exact ⟨hset, hverify⟩
        · exact hsound k hk
      · rw [if_pos hverify]
        refine ⟨?_, hsound⟩
        rw [hset, Bool.eq_false_iff.mpr hverify]
        rfl
    · rw [if_pos hset]
      refine ⟨?_, hsound⟩
      rw [Bool.eq_false_iff.mpr hset]
      rfl

theorem CheckSig_spec (hsound : CacheSound C checks) (sighash : uint256)
    {vchSig : valtype} (vchPubKey : valtype) (hbyte : backByte vchSig = nHashType) :
    (CheckSig C vchSig vchPubKey scriptCode txTo nIn nHashType (some sighash) checks).1 =
        ecVerifies C sighash vchSig vchPubKey ∧
      CacheSound C
        (CheckSig C vchSig vchPubKey scriptCode txTo nIn nHashType (some sighash) checks).2 := by
  have htype : (if nHashType ≠ 0 then nHashType else backByte vchSig) = backByte vchSig := by
    rw [hbyte, ite_self]
  unfold CheckSig ecVerifies
  by_cases hempty : vchSig = []
  · rw [hempty]
    exact ⟨rfl, hsound⟩
  · rw [if_neg hempty]
    rw [htype, if_neg (not_not.mpr rfl)]
    by_cases hshort : vchSig.dropLast.length < 8
    · rw [if_pos hshort]
      refine ⟨?_, hsound⟩
      rw [decide_eq_false (by omega)]
      rfl
    · rw [if_neg hshort, decide_eq_true (by omega)]
      exact verifyCached_spec hsound sighash vchSig.dropLast vchPubKey

theorem VerifyMLDSA_spec (vchSig vchPubKey : valtype) (preimage : List UInt8)
    (checks : SignatureChecks) :
    (VerifyMLDSA C vchSig.dropLast vchPubKey (BuildHybridMessage preimage) checks).1 =
        mldsaVerifies C preimage vchSig vchPubKey ∧
      (VerifyMLDSA C vchSig.dropLast vchPubKey (BuildHybridMessage preimage)
        checks).2.signatureCache = checks.signatureCache := by
  unfold VerifyMLDSA mldsaVerifies
  by_cases hsig : vchSig.dropLast.length = ML_DSA_65_SIG_SIZE - 1
  · rw [if_neg (not_not.mpr hsig), decide_eq_true hsig]
    by_cases hpub : vchPubKey.length = ML_DSA_65_PUBKEY_SIZE
    · rw [if_neg (not_not.mpr hpub), decide_eq_true hpub]
      exact ⟨rfl, rfl⟩
    · rw [if_pos hpub, decide_eq_false hpub]
      exact ⟨rfl, rfl⟩
  · rw [if_pos hsig, decide_eq_false hsig]
    exact ⟨rfl, rfl⟩

theorem checkHybridPair_spec (hsound : CacheSound C checks) {sigPair : valtype × valtype}
    (pubPair : valtype × valtype) (preimage : List UInt8)
    (hbyte : backByte sigPair.1 = nHashType) :
    (checkHybridPair C sigPair pubPair scriptCode txTo nIn nHashType preimage checks).1 =
        pairVerifies C preimage sigPair pubPair ∧
      CacheSound C
        (checkHybridPair C sigPair pubPair scriptCode txTo nIn nHashType preimage checks).2 := by
  obtain ⟨hec, hkept⟩ := CheckSig_spec scriptCode txTo nIn nHashType hsound (C.Hash preimage)
    pubPair.1 hbyte
  unfold checkHybridPair pairVerifies
  split
  · next heq =>
    rw [heq] at hec hkept
    rw [← hec]
    exact ⟨rfl, hkept⟩
  · next checks₁ heq =>
    rw [heq] at hec hkept
    obtain ⟨hml, hcache⟩ :=
      VerifyMLDSA_spec (C := C) sigPair.2 pubPair.2 preimage checks₁
    rw [← hec]
    refine ⟨hml, ?_⟩
    intro k hk
    rw [hcache] at hk
    exact hkept k hk

end Pair

/-! ## One pair in either opcode -/

/-- What `OP_CHECKMULTIHYBRIDSIG` decides on one pair: the guards before its loop, and the match
in the loop. -/
def multisigPair (C : SignatureCrypto) (txTo : CTransaction) (nIn nHashType : ℕ)
    (scriptCode : CScript) (sigPair pubPair : valtype × valtype) (checks : SignatureChecks) :
    Bool × SignatureChecks :=
  if sigPair.1 = [] ∨ sigPair.2 = [] then (false, checks)
  else
    match commonHashType nHashType [sigPair] with
    | none => (false, checks)
    | some sigHashType =>
      match ConstructSignatureHashPreimage scriptCode txTo nIn sigHashType with
      | none => (false, checks)
      | some preimage =>
        checkHybridPair C sigPair pubPair scriptCode txTo nIn sigHashType preimage checks

def ValidPair (C : SignatureCrypto) (txTo : CTransaction) (nIn nHashType : ℕ)
    (scriptCode : CScript) (sigPair pubPair : valtype × valtype) : Prop :=
  (sigPair.1 ≠ [] ∧ sigPair.2 ≠ []) ∧ backByte sigPair.2 = backByte sigPair.1 ∧
    (nHashType = 0 ∨ backByte sigPair.1 = nHashType) ∧
    ∃ preimage, ConstructSignatureHashPreimage scriptCode txTo nIn (backByte sigPair.1) =
      some preimage ∧ pairVerifies C preimage sigPair pubPair = true

section Rule

variable {C : SignatureCrypto} {checks : SignatureChecks} (txTo : CTransaction)
  (nIn nHashType : ℕ) (scriptCode : CScript) (sigPair pubPair : valtype × valtype)

theorem commonHashType_single :
    commonHashType nHashType [sigPair] =
      if backByte sigPair.2 = backByte sigPair.1 ∧
          (nHashType = 0 ∨ backByte sigPair.1 = nHashType) then
        some (backByte sigPair.1)
      else none := by
  unfold commonHashType
  by_cases hbyte : backByte sigPair.2 = backByte sigPair.1
  · by_cases hzero : nHashType = 0
    · simp [hbyte, hzero]
    · by_cases htype : backByte sigPair.1 = nHashType <;> simp [hbyte, hzero, htype]
  · simp [hbyte]

theorem multisigPair_iff (hsound : CacheSound C checks) :
    (multisigPair C txTo nIn nHashType scriptCode sigPair pubPair checks).1 = true ↔
      ValidPair C txTo nIn nHashType scriptCode sigPair pubPair := by
  rw [multisigPair, ValidPair, commonHashType_single]
  by_cases hempty : sigPair.1 = [] ∨ sigPair.2 = []
  · rw [if_pos hempty]
    constructor
    · intro h
      cases h
    · intro h
      rcases hempty with hec | hml
      · exact absurd hec h.1.1
      · exact absurd hml h.1.2
  · rw [if_neg hempty]
    have hne : sigPair.1 ≠ [] ∧ sigPair.2 ≠ [] := not_or.mp hempty
    by_cases htype : backByte sigPair.2 = backByte sigPair.1 ∧
        (nHashType = 0 ∨ backByte sigPair.1 = nHashType)
    · rw [if_pos htype]
      dsimp only
      cases hpre : ConstructSignatureHashPreimage scriptCode txTo nIn (backByte sigPair.1) with
      | none =>
        constructor
        · intro h
          cases h
        · intro h
          obtain ⟨_, _, _, preimage, hsome, _⟩ := h
          cases hsome
      | some preimage =>
        rw [(checkHybridPair_spec scriptCode txTo nIn _ hsound pubPair preimage rfl).1]
        constructor
        · intro h
          exact ⟨hne, htype.1, htype.2, preimage, rfl, h⟩
        · intro h
          obtain ⟨_, _, _, other, hsome, hverifies⟩ := h
          cases hsome
          exact hverifies
    · rw [if_neg htype]
      constructor
      · intro h
        cases h
      · intro h
        exact absurd ⟨h.2.1, h.2.2.1⟩ htype

theorem VerifyHybridSignature_iff (hsound : CacheSound C checks) :
    (VerifyHybridSignature C sigPair pubPair scriptCode txTo nIn nHashType checks).1 = true ↔
      pubPair.1.length = ECDSA_PUBKEY_SIZE ∧
        ValidPair C txTo nIn nHashType scriptCode sigPair pubPair := by
  have hmldsa {preimage : List UInt8} (h : pairVerifies C preimage sigPair pubPair = true) :
      pubPair.2.length = ML_DSA_65_PUBKEY_SIZE := by
    unfold pairVerifies mldsaVerifies at h
    simp only [Bool.and_eq_true, decide_eq_true_eq] at h
    exact h.2.1.2
  unfold VerifyHybridSignature ValidPair
  constructor
  · intro h
    split_ifs at h with hempty hlength hml hbyte htype
    obtain ⟨hsig1, hsig2, _, _⟩ : sigPair.1 ≠ [] ∧ sigPair.2 ≠ [] ∧ pubPair.1 ≠ [] ∧
        pubPair.2 ≠ [] := by
      simpa only [not_or] using hempty
    refine ⟨not_not.mp hlength, ⟨hsig1, hsig2⟩, (not_not.mp hbyte).symm, ?_, ?_⟩
    · by_cases hzero : nHashType = 0
      · exact Or.inl hzero
      · exact Or.inr (not_not.mp fun hne => htype ⟨hzero, hne⟩)
    · cases hpre : ConstructSignatureHashPreimage scriptCode txTo nIn (backByte sigPair.1) with
      | none =>
        rw [hpre] at h
        cases h
      | some preimage =>
        rw [hpre] at h
        rw [(checkHybridPair_spec scriptCode txTo nIn _ hsound pubPair preimage rfl).1] at h
        exact ⟨preimage, rfl, h⟩
  · intro h
    obtain ⟨hlength, ⟨hsig1, hsig2⟩, hbyte, htype, preimage, hpre, hverifies⟩ := h
    have hml := hmldsa hverifies
    have hpub1 : pubPair.1 ≠ [] := by
      intro hnil
      rw [hnil] at hlength
      cases hlength
    have hpub2 : pubPair.2 ≠ [] := by
      intro hnil
      rw [hnil] at hml
      cases hml
    have hnone : ¬ (sigPair.1 = [] ∨ sigPair.2 = [] ∨ pubPair.1 = [] ∨ pubPair.2 = []) := by
      simp only [not_or]
      exact ⟨hsig1, hsig2, hpub1, hpub2⟩
    have hagree : ¬ (nHashType ≠ 0 ∧ backByte sigPair.1 ≠ nHashType) := by
      intro hand
      exact htype.elim hand.1 hand.2
    rw [if_neg hnone, if_neg (not_not.mpr hlength), if_neg (not_not.mpr hml),
      if_neg (not_not.mpr hbyte.symm), if_neg hagree, hpre]
    rw [(checkHybridPair_spec scriptCode txTo nIn _ hsound pubPair preimage rfl).1]
    exact hverifies

end Rule

/-! ## The stack of the multisig opcode -/

def flattenPairs : List (valtype × valtype) → Stack
  | [] => []
  | pair :: pairs => pair.2 :: pair.1 :: flattenPairs pairs

@[simp]
theorem length_flattenPairs (pairs : List (valtype × valtype)) :
    (flattenPairs pairs).length = pairs.length * 2 := by
  induction pairs with
  | nil => rfl
  | cons pair pairs ih =>
    rw [flattenPairs, length_cons, length_cons, length_cons]
    omega

@[simp]
theorem hybridPairs_flattenPairs (pairs : List (valtype × valtype)) :
    hybridPairs (flattenPairs pairs) = pairs := by
  induction pairs with
  | nil => rfl
  | cons pair pairs ih => rw [flattenPairs, hybridPairs, ih]

variable {n : ℕ}

theorem flattenPairs_hybridPairs {stack : Stack} (h : stack.length = n * 2) :
    flattenPairs (hybridPairs stack) = stack ∧ (hybridPairs stack).length = n := by
  induction n generalizing stack with
  | zero =>
    have hnil : stack = [] := eq_nil_of_length_eq_zero (by omega)
    rw [hnil]
    exact ⟨rfl, rfl⟩
  | succ n ih =>
    obtain ⟨vchML, stack, rfl⟩ := exists_cons_of_length_pos (l := stack) (by omega)
    obtain ⟨vchEC, stack, rfl⟩ := exists_cons_of_length_pos (l := stack) (by
      rw [length_cons] at h
      omega)
    have hrest : stack.length = n * 2 := by
      simp only [length_cons] at h
      omega
    obtain ⟨hflat, hlength⟩ := ih hrest
    refine ⟨by rw [hybridPairs, flattenPairs, hflat], by rw [hybridPairs, length_cons, hlength]⟩

theorem stackCount_of_cast {vch : valtype} {bound : ℕ} (stack : Stack)
    (h : CastToBigNum vch = some (n : ℤ)) (hbound : n ≤ bound) :
    stackCount bound (vch :: stack) = some (n, stack) := by
  rw [stackCount, h]
  dsimp only
  rw [if_neg (by omega)]
  rfl

/-! ## The offsets of the source -/

theorem stacktop_drop (stack : Stack) {i : ℕ} (hpos : 0 < i) (h : i ≤ stack.length) :
    ∃ vch rest, stack.drop (i - 1) = vch :: rest ∧ stack.drop i = rest ∧
      stacktop stack i = some vch := by
  have hlt : i - 1 < stack.length := by omega
  have hdrop := drop_eq_getElem_cons hlt
  rw [Nat.sub_add_cancel hpos] at hdrop
  refine ⟨stack[i - 1], stack.drop i, hdrop, rfl, ?_⟩
  rw [stacktop, if_pos ⟨hpos, h⟩, getElem?_eq_getElem hlt]

theorem mapM_stackPair (stack : Stack) (n base : ℕ) (hpos : 0 < base)
    (h : base - 1 + n * 2 ≤ stack.length) :
    (range n).mapM (stackPair stack base) =
      some (hybridPairs ((stack.drop (base - 1)).take (n * 2))) := by
  induction n generalizing base with
  | zero => rfl
  | succ n ih =>
    obtain ⟨vchML, rest, hdrop, hrest, hml⟩ := stacktop_drop stack hpos (by omega)
    obtain ⟨vchEC, rest', hdrop', hrest', hec⟩ :=
      stacktop_drop stack (i := base + 1) (by omega) (by omega)
    rw [Nat.add_sub_cancel, hrest] at hdrop'
    have hshift (k : ℕ) : stackPair stack base (k + 1) = stackPair stack (base + 2) k := by
      unfold stackPair
      rw [show base + (k + 1) * 2 = base + 2 + k * 2 by omega]
    have hfirst : stackPair stack base 0 = some (vchEC, vchML) := by
      unfold stackPair
      simp only [Nat.zero_mul, Nat.add_zero, hec, hml]
      rfl
    have hnext := ih (base + 2) (by omega) (by omega)
    have hfun : (fun k => stackPair stack base (k + 1)) = stackPair stack (base + 2) :=
      funext hshift
    rw [range_succ_eq_map, mapM_cons, hfirst, mapM_map]
    have hcomp : (stackPair stack base ∘ Nat.succ) = stackPair stack (base + 2) := hfun
    rw [hcomp, hnext, hdrop, hdrop', show (n + 1) * 2 = n * 2 + 1 + 1 by omega, ← hrest']
    rfl

section Offsets

variable (C : SignatureCrypto) (txTo : CTransaction) (nIn nHashType : ℕ) (st : EvalState)

/-- No offset of `OP_CHECKMULTIHYBRIDSIG` leaves the stack, and what it reads is what the opcode
takes from the list. -/
theorem opCheckMultiHybridSigAt_eq :
    st.opCheckMultiHybridSigAt C txTo nIn nHashType =
      some (st.opCheckMultiHybridSig C txTo nIn nHashType) := by
  unfold opCheckMultiHybridSigAt opCheckMultiHybridSig
  cases hstack : st.stack with
  | nil =>
    rw [if_pos (by simp), stackCount]
  | cons vchN stack₁ =>
    have hfirst : stacktop (vchN :: stack₁) 1 = some vchN := by
      rfl
    rw [if_neg (by simp), hfirst, stackCount]
    simp only [bind_eq_bind, bind_some]
    cases hn : CastToBigNum vchN with
    | none => rfl
    | some n =>
      dsimp only
      by_cases hrange : n < 0 ∨ n > 20
      · rw [if_pos hrange, if_pos (by exact_mod_cast hrange)]
      · have hrange' : ¬ (n < 0 ∨ n > ((20 : ℕ) : ℤ)) := by exact_mod_cast hrange
        rw [if_neg hrange, if_neg hrange']
        dsimp only
        by_cases hops : st.nOpCount + n.toNat > 201
        · rw [if_pos hops, if_pos hops]
        · rw [if_neg hops, if_neg hops]
          by_cases hshort : (vchN :: stack₁).length < 1 + 1 + n.toNat * 2
          · have hnil : stack₁.drop (n.toNat * 2) = [] := by
              rw [drop_eq_nil_iff]
              rw [length_cons] at hshort
              omega
            rw [if_pos hshort, hnil, stackCount]
          · obtain ⟨vchM, stack₂, hdrop, hrest, hread⟩ :=
              stacktop_drop (vchN :: stack₁) (i := 1 + 1 + n.toNat * 2) (by omega) (by omega)
            have hdrop₁ : stack₁.drop (n.toNat * 2) = vchM :: stack₂ := by
              rw [← hdrop, show 1 + 1 + n.toNat * 2 - 1 = n.toNat * 2 + 1 by omega, drop_succ_cons]
            have hlength : (vchN :: stack₁).length = 1 + 1 + n.toNat * 2 + stack₂.length := by
              have hcount := congrArg length hrest
              rw [length_drop] at hcount
              omega
            rw [if_neg hshort, hread, hdrop₁, stackCount]
            simp only [bind_some]
            cases hm : CastToBigNum vchM with
            | none => rfl
            | some m =>
              dsimp only
              by_cases hmrange : m < 0 ∨ m > (n.toNat : ℤ)
              · rw [if_pos hmrange, if_pos hmrange]
              · rw [if_neg hmrange, if_neg hmrange]
                dsimp only
                have hiff : (vchN :: stack₁).length < 1 + 1 + n.toNat * 2 + m.toNat * 2 ↔
                    stack₂.length < m.toNat * 2 := by omega
                have hbelow : (vchN :: stack₁).drop (1 + 1 + n.toNat * 2 + m.toNat * 2) =
                    stack₂.drop (m.toNat * 2) := by
                  rw [← drop_drop, hrest]
                by_cases hsigs : stack₂.length < m.toNat * 2
                · rw [if_pos (hiff.mpr hsigs), if_pos hsigs]
                · rw [if_neg (mt hiff.mp hsigs), if_neg hsigs]
                  by_cases hzero : m.toNat = 0
                  · rw [if_pos hzero, if_pos hzero, hbelow, hzero, drop_zero]
                  · rw [if_neg hzero, if_neg hzero,
                      mapM_stackPair _ _ _ (by omega) (by omega),
                      mapM_stackPair _ _ _ (by omega) (by omega), hbelow]
                    rw [show 1 + 1 + n.toNat * 2 + 1 - 1 = 1 + 1 + n.toNat * 2 by omega, hrest]
                    rfl

end Offsets

/-! ## What the multisig opcode accepts -/

structure MultisigCounts (st : EvalState) (keys sigs : List (valtype × valtype)) (rest : Stack) :
    Prop where
  stack : ∃ vchN vchM, st.stack = vchN :: (flattenPairs keys ++ vchM :: (flattenPairs sigs ++ rest))
    ∧ CastToBigNum vchN = some (keys.length : ℤ) ∧ CastToBigNum vchM = some (sigs.length : ℤ)
  keys_le : keys.length ≤ 20
  sigs_le : sigs.length ≤ keys.length
  ops : st.nOpCount + keys.length ≤ 201

/-- A stack that the opcode goes through: also its signatures are not empty and end in one hash
type, the required one if there is one. -/
structure MultisigStack (nHashType : ℕ) (st : EvalState) (keys sigs : List (valtype × valtype))
    (rest : Stack) (sigHashType : ℕ) : Prop extends MultisigCounts st keys sigs rest where
  nonempty : ∀ sigPair ∈ sigs, sigPair.1 ≠ [] ∧ sigPair.2 ≠ []
  oneType : ∀ sigPair ∈ sigs, backByte sigPair.1 = sigHashType ∧ backByte sigPair.2 = sigHashType
  required : sigs ≠ [] → nHashType = 0 ∨ sigHashType = nHashType

def multisigScriptCode (st : EvalState) (sigs : List (valtype × valtype)) : CScript :=
  dropSignatures st.pbegincodehash (sigs.flatMap fun sigPair => [sigPair.1, sigPair.2])

section Multisig

variable {C : SignatureCrypto} {txTo : CTransaction} {nIn nHashType : ℕ} {st : EvalState}
  {keys sigs : List (valtype × valtype)} {rest : Stack}

theorem MultisigCounts.length (h : MultisigCounts st keys sigs rest) :
    st.stack.length = 2 * keys.length + 2 * sigs.length + 2 + rest.length := by
  obtain ⟨vchN, vchM, hstack, -, -⟩ := h.stack
  rw [hstack, length_cons, length_append, length_cons, length_append,
    length_flattenPairs, length_flattenPairs]
  omega

/-- The opcode on a stack with these counts. -/
theorem MultisigCounts.op_eq (h : MultisigCounts st keys sigs rest) :
    st.opCheckMultiHybridSig C txTo nIn nHashType =
      if sigs = [] then
        .ok { st with stack := vchTrue :: rest, nOpCount := st.nOpCount + keys.length }
      else
        ({ st with nOpCount := st.nOpCount + keys.length } : EvalState).checkMultiHybrid C txTo nIn
          nHashType sigs keys rest := by
  obtain ⟨vchN, vchM, hstack, hn, hm⟩ := h.stack
  have hkeys : (flattenPairs keys ++ vchM :: (flattenPairs sigs ++ rest)).drop (keys.length * 2) =
      vchM :: (flattenPairs sigs ++ rest) := drop_left' (length_flattenPairs keys)
  have htake : (flattenPairs keys ++ vchM :: (flattenPairs sigs ++ rest)).take (keys.length * 2) =
      flattenPairs keys := take_left' (length_flattenPairs keys)
  rw [opCheckMultiHybridSig, hstack, stackCount_of_cast _ hn h.keys_le]
  dsimp only
  rw [if_neg (not_lt.mpr h.ops), hkeys, stackCount_of_cast _ hm h.sigs_le, htake,
    hybridPairs_flattenPairs]
  dsimp only
  rw [if_neg (by rw [length_append, length_flattenPairs]; omega),
    take_left' (length_flattenPairs sigs), drop_left' (length_flattenPairs sigs),
    hybridPairs_flattenPairs]
  by_cases hempty : sigs = []
  · rw [hempty]
    rfl
  · rw [if_neg hempty, if_neg (fun hzero => hempty (eq_nil_of_length_eq_zero hzero))]

variable {st' : EvalState} {sigHashType : ℕ} {preimage : List UInt8}

theorem multisigCounts_of_ok (h : st.opCheckMultiHybridSig C txTo nIn nHashType = .ok st') :
    ∃ keys sigs rest, MultisigCounts st keys sigs rest := by
  unfold opCheckMultiHybridSig at h
  split at h
  · cases h
  · next n stack₁ hn =>
    obtain ⟨hnle, vchN, hstack, hncast⟩ := stackCount_eq_some hn
    dsimp only at h
    split at h
    · cases h
    · next hops =>
      split at h
      · cases h
      · next m stack₂ hm =>
        obtain ⟨hmle, vchM, hdrop, hmcast⟩ := stackCount_eq_some hm
        split at h
        · cases h
        · next hsigs =>
          have hlength := congrArg length hdrop
          rw [length_drop, length_cons] at hlength
          have hkeys : (stack₁.take (n * 2)).length = n * 2 := by
            rw [length_take]
            omega
          have hsigs : (stack₂.take (m * 2)).length = m * 2 := by
            rw [length_take]
            omega
          obtain ⟨hkeysFlat, hkeysLength⟩ := flattenPairs_hybridPairs hkeys
          obtain ⟨hsigsFlat, hsigsLength⟩ := flattenPairs_hybridPairs hsigs
          refine ⟨hybridPairs (stack₁.take (n * 2)), hybridPairs (stack₂.take (m * 2)),
            stack₂.drop (m * 2), ?_, ?_, ?_, ?_⟩
          · refine ⟨vchN, vchM, ?_, ?_, ?_⟩
            · rw [hstack, hkeysFlat, hsigsFlat, take_append_drop, ← hdrop, take_append_drop]
            · rw [hkeysLength, hncast]
            · rw [hsigsLength, hmcast]
          · rw [hkeysLength]
            exact hnle
          · rw [hkeysLength, hsigsLength]
            exact hmle
          · omega

theorem commonHashType_eq_some (hne : sigs ≠ []) :
    commonHashType nHashType sigs = some sigHashType ↔
      (∀ sigPair ∈ sigs, backByte sigPair.1 = sigHashType ∧ backByte sigPair.2 = sigHashType) ∧
        (nHashType = 0 ∨ sigHashType = nHashType) := by
  cases sigs with
  | nil => exact absurd rfl hne
  | cons first sigs =>
    rw [commonHashType]
    constructor
    · intro h
      split_ifs at h with hml htype hall
      have hfirst : backByte first.1 = sigHashType := Option.some.inj h
      rw [List.all_eq_true] at hall
      refine ⟨?_, ?_⟩
      · intro sigPair hmem
        rcases mem_cons.mp hmem with rfl | hmem
        · exact ⟨hfirst, (not_not.mp hml).trans hfirst⟩
        · have hboth := of_decide_eq_true (hall sigPair hmem)
          exact ⟨hboth.1.trans hfirst, hboth.2.trans hfirst⟩
      · by_cases hzero : nHashType = 0
        · exact Or.inl hzero
        · refine Or.inr ?_
          rw [← hfirst]
          exact not_not.mp fun hne => htype ⟨hzero, hne⟩
    · intro h
      obtain ⟨hall, htype⟩ := h
      obtain ⟨hec, hml⟩ := hall first mem_cons_self
      rw [if_neg (by rw [hec, hml]; exact not_not.mpr rfl), if_neg, if_pos, hec]
      · rw [List.all_eq_true]
        intro other hmem
        rw [hec]
        exact decide_eq_true (hall other (mem_cons_of_mem _ hmem))
      · intro hand
        rw [hec] at hand
        exact htype.elim hand.1 hand.2

theorem matchHybridSignatures_spec {checks : SignatureChecks} (scriptCode : CScript)
    (sigHashType : ℕ) (preimage : List UInt8) (hsound : CacheSound C checks)
    (hbytes : ∀ sigPair ∈ sigs, backByte sigPair.1 = sigHashType) :
    (matchHybridSignatures C scriptCode txTo nIn sigHashType preimage sigs keys checks).1 =
        greedyMatch (pairVerifies C preimage) sigs keys ∧
      CacheSound C
        (matchHybridSignatures C scriptCode txTo nIn sigHashType preimage sigs keys checks).2 := by
  induction keys generalizing sigs checks with
  | nil => cases sigs <;> exact ⟨rfl, hsound⟩
  | cons key keys ih =>
    cases sigs with
    | nil => exact ⟨rfl, hsound⟩
    | cons sig sigs =>
      obtain ⟨hpair, hkept⟩ := checkHybridPair_spec scriptCode txTo nIn sigHashType hsound key
        preimage (hbytes sig mem_cons_self)
      unfold matchHybridSignatures greedyMatch
      dsimp only at hpair hkept ⊢
      rw [hpair]
      by_cases hverifies : pairVerifies C preimage sig key = true
      · rw [if_pos hverifies, if_pos hverifies]
        exact ih hkept fun sigPair hmem => hbytes sigPair (mem_cons_of_mem _ hmem)
      · rw [if_neg hverifies, if_neg hverifies]
        exact ih hkept hbytes

theorem MultisigStack.checkMultiHybrid_eq
    (h : MultisigStack nHashType st keys sigs rest sigHashType) (hne : sigs ≠ [])
    (hpre : ConstructSignatureHashPreimage (multisigScriptCode st sigs) txTo nIn sigHashType =
      some preimage) (st₁ : EvalState) (hcode : st₁.pbegincodehash = st.pbegincodehash) :
    st₁.checkMultiHybrid C txTo nIn nHashType sigs keys rest =
      st₁.pushResult false rest (matchHybridSignatures C (multisigScriptCode st sigs) txTo nIn
        sigHashType preimage sigs keys st₁.checks) := by
  have hempty : ¬ (sigs.any fun sigPair => sigPair.1 = [] ∨ sigPair.2 = []) = true := by
    intro hany
    obtain ⟨sigPair, hmem, heq⟩ := any_eq_true.mp hany
    have hboth := h.nonempty sigPair hmem
    exact (of_decide_eq_true heq).elim hboth.1 hboth.2
  have htype : commonHashType nHashType sigs = some sigHashType :=
    (commonHashType_eq_some hne).mpr ⟨h.oneType, h.required hne⟩
  unfold multisigScriptCode at hpre ⊢
  rw [checkMultiHybrid, if_neg hempty, hcode, htype]
  dsimp only
  rw [hpre]

theorem MultisigStack.op_ok (hsound : CacheSound C st.checks)
    (h : MultisigStack nHashType st keys sigs rest sigHashType)
    (hpre : sigs ≠ [] → ConstructSignatureHashPreimage (multisigScriptCode st sigs) txTo nIn
      sigHashType = some preimage) :
    ∃ fSuccess checks, st.opCheckMultiHybridSig C txTo nIn nHashType =
        .ok { st with stack := boolPush fSuccess rest, nOpCount := st.nOpCount + keys.length,
                      checks } ∧
      (fSuccess = true ↔ OrderedMatch (pairVerifies C preimage) sigs keys) := by
  rw [h.op_eq]
  by_cases hempty : sigs = []
  · rw [if_pos hempty]
    refine ⟨true, st.checks, rfl, ?_⟩
    rw [← greedyMatch_iff, hempty, greedyMatch]
  · have hmatch : (matchHybridSignatures C (multisigScriptCode st sigs) txTo nIn sigHashType
        preimage sigs keys st.checks).1 = greedyMatch (pairVerifies C preimage) sigs keys :=
      (matchHybridSignatures_spec _ _ _ hsound fun s hs => (h.oneType s hs).1).1
    have hcheck := h.checkMultiHybrid_eq (C := C) hempty (hpre hempty)
      { st with nOpCount := st.nOpCount + keys.length } rfl
    rw [if_neg hempty, hcheck]
    refine ⟨_, _, rfl, ?_⟩
    rw [hmatch, greedyMatch_iff]

/-- What the opcode does not fail on is such a stack. -/
theorem multisigStack_of_ok (h : st.opCheckMultiHybridSig C txTo nIn nHashType = .ok st') :
    ∃ keys sigs rest sigHashType, MultisigStack nHashType st keys sigs rest sigHashType ∧
      (sigs ≠ [] → (ConstructSignatureHashPreimage (multisigScriptCode st sigs) txTo nIn
        sigHashType).isSome = true) := by
  obtain ⟨keys, sigs, rest, hcounts⟩ := multisigCounts_of_ok h
  rw [hcounts.op_eq] at h
  by_cases hempty : sigs = []
  · refine ⟨keys, sigs, rest, 0, ⟨hcounts, ?_, ?_, ?_⟩, fun hne => absurd hempty hne⟩
    · intro sigPair hmem
      rw [hempty] at hmem
      exact absurd hmem not_mem_nil
    · intro sigPair hmem
      rw [hempty] at hmem
      exact absurd hmem not_mem_nil
    · intro hne
      exact absurd hempty hne
  · rw [if_neg hempty] at h
    unfold checkMultiHybrid at h
    split at h
    · cases h
    · next hany =>
      split at h
      · cases h
      · next sigHashType htype =>
        obtain ⟨hall, hrequired⟩ := (commonHashType_eq_some hempty).mp htype
        refine ⟨keys, sigs, rest, sigHashType, ⟨hcounts, ?_, hall, fun _ => hrequired⟩, ?_⟩
        · intro sigPair hmem
          by_contra hsome
          apply hany
          apply any_eq_true.mpr
          refine ⟨sigPair, hmem, decide_eq_true ?_⟩
          by_cases hec : sigPair.1 = []
          · exact Or.inl hec
          · exact Or.inr (not_not.mp fun hml => hsome ⟨hec, hml⟩)
        · intro _
          cases hpre : ConstructSignatureHashPreimage (multisigScriptCode st sigs) txTo nIn
              sigHashType with
          | none =>
            unfold multisigScriptCode at hpre
            dsimp only at h
            rw [hpre] at h
            cases h
          | some preimage => rfl

end Multisig

section

variable (C : SignatureCrypto) (txTo : CTransaction) (nIn nHashType : ℕ) (st : EvalState)
  (pc : CScript)
include C txTo nIn nHashType st pc

theorem execOp_multiHybrid :
    st.execOp C txTo nIn nHashType OP_CHECKMULTIHYBRIDSIG pc =
      st.opCheckMultiHybridSig C txTo nIn nHashType := rfl

theorem execOp_checkHybridSig :
    st.execOp C txTo nIn nHashType OP_CHECKHYBRIDSIG pc =
      st.opCheckHybridSig C txTo nIn nHashType false := rfl

end

/-! ## One signature, one key -/

/-- The step goes on with `true` in place of its operands. -/
def PushesTrue (result : Except EvalFailure EvalState) (rest : Stack) : Prop :=
  ∃ st, result = .ok st ∧ st.stack = vchTrue :: rest

theorem pushesTrue_pushResult (st : EvalState) (rest : Stack) (result : Bool × SignatureChecks) :
    PushesTrue (st.pushResult false rest result) rest ↔ result.1 = true := by
  constructor
  · intro h
    obtain ⟨st', hresult, hstack⟩ := h
    cases hresult
    cases hvalue : result.1 with
    | true => rfl
    | false =>
      have htop : boolPush result.1 rest = vchTrue :: rest := hstack
      rw [hvalue] at htop
      cases htop
  · intro h
    refine ⟨_, rfl, ?_⟩
    rw [h]
    rfl

theorem not_pushesTrue_error (failure : EvalFailure) (rest : Stack) :
    ¬ PushesTrue (.error failure) rest := by
  intro h
  obtain ⟨st, hresult, -⟩ := h
  cases hresult

section Single

variable {C : SignatureCrypto} (txTo : CTransaction) (nIn nHashType : ℕ) (st : EvalState)
  (sigPair pubPair : valtype × valtype) (rest : Stack)

theorem checkMultiHybrid_single :
    PushesTrue (st.checkMultiHybrid C txTo nIn nHashType [sigPair] [pubPair] rest) rest ↔
      (multisigPair C txTo nIn nHashType (dropSignatures st.pbegincodehash [sigPair.1, sigPair.2])
        sigPair pubPair st.checks).1 = true := by
  have hcode : ([sigPair].flatMap fun sigPair : valtype × valtype => [sigPair.1, sigPair.2]) =
      [sigPair.1, sigPair.2] := rfl
  unfold checkMultiHybrid multisigPair
  by_cases hempty : sigPair.1 = [] ∨ sigPair.2 = []
  · rw [if_pos (by simpa using hempty), if_pos hempty]
    exact ⟨fun h => absurd h (not_pushesTrue_error _ _), fun h => by cases h⟩
  · rw [if_neg (by simpa using hempty), if_neg hempty]
    rw [hcode]
    cases commonHashType nHashType [sigPair] with
    | none => exact ⟨fun h => absurd h (not_pushesTrue_error _ _), fun h => by cases h⟩
    | some sigHashType =>
      dsimp only
      cases ConstructSignatureHashPreimage (dropSignatures st.pbegincodehash
          [sigPair.1, sigPair.2]) txTo nIn sigHashType with
      | none => exact ⟨fun h => absurd h (not_pushesTrue_error _ _), fun h => by cases h⟩
      | some preimage =>
        dsimp only
        rw [pushesTrue_pushResult, matchHybridSignatures]
        generalize checkHybridPair C sigPair pubPair _ txTo nIn sigHashType preimage st.checks =
          result
        obtain ⟨fMatch, checks⟩ := result
        cases fMatch <;> simp [matchHybridSignatures]

theorem multiHybrid_single {vchN vchM : valtype} (hn : CastToBigNum vchN = some 1)
    (hm : CastToBigNum vchM = some 1) (hstack : st.stack =
      vchN :: pubPair.2 :: pubPair.1 :: vchM :: sigPair.2 :: sigPair.1 :: rest) :
    PushesTrue (st.opCheckMultiHybridSig C txTo nIn nHashType) rest ↔
      st.nOpCount + 1 ≤ 201 ∧ (multisigPair C txTo nIn nHashType
        (dropSignatures st.pbegincodehash [sigPair.1, sigPair.2]) sigPair pubPair
        st.checks).1 = true := by
  by_cases hops : st.nOpCount + 1 ≤ 201
  · have hcounts : MultisigCounts st [pubPair] [sigPair] rest :=
      ⟨⟨vchN, vchM, hstack, hn, hm⟩, by simp, by simp, hops⟩
    rw [hcounts.op_eq, if_neg (cons_ne_nil _ _), checkMultiHybrid_single]
    exact ⟨fun h => ⟨hops, h⟩, fun h => h.2⟩
  · constructor
    · intro h
      rw [opCheckMultiHybridSig, hstack, stackCount_of_cast (n := 1) _ hn (by omega)] at h
      dsimp only at h
      rw [if_pos (by omega)] at h
      exact absurd h (not_pushesTrue_error _ _)
    · intro h
      exact absurd h.1 hops

/-- The single opcode. -/
theorem hybrid_single (hstack : st.stack =
      pubPair.2 :: pubPair.1 :: sigPair.2 :: sigPair.1 :: rest) :
    PushesTrue (st.opCheckHybridSig C txTo nIn nHashType false) rest ↔
      (VerifyHybridSignature C sigPair pubPair
        (dropSignatures st.pbegincodehash [sigPair.1, sigPair.2]) txTo nIn nHashType
        st.checks).1 = true := by
  rw [opCheckHybridSig, hstack]
  rw [pushesTrue_pushResult]

end Single

/-- The two opcodes decide alike on one signature and one key exactly when the ECDSA key has 33
bytes or the signature is not valid. As opcodes of a script the multisig one has the operation
limit besides, so there both the length and the limit have to fail or neither. -/
theorem hybridRule_iff {C : SignatureCrypto} {checks : SignatureChecks}
    (hsound : CacheSound C checks) (txTo : CTransaction) (nIn nHashType : ℕ)
    (sigPair pubPair : valtype × valtype) :
    (∀ scriptCode : CScript,
      ((multisigPair C txTo nIn nHashType scriptCode sigPair pubPair checks).1 = true ↔
        (VerifyHybridSignature C sigPair pubPair scriptCode txTo nIn nHashType checks).1 = true) ↔
      (pubPair.1.length = ECDSA_PUBKEY_SIZE ∨
        ¬ ValidPair C txTo nIn nHashType scriptCode sigPair pubPair)) ∧
    (∀ (st : EvalState) (rest : Stack) (vchN vchM : valtype) (pc : CScript), st.checks = checks →
      CastToBigNum vchN = some 1 → CastToBigNum vchM = some 1 →
      ((PushesTrue (({ st with stack := vchN :: pubPair.2 :: pubPair.1 :: vchM :: sigPair.2 ::
            sigPair.1 :: rest } : EvalState).execOp C txTo nIn nHashType OP_CHECKMULTIHYBRIDSIG pc)
          rest ↔ PushesTrue (({ st with stack := pubPair.2 :: pubPair.1 :: sigPair.2 :: sigPair.1 ::
            rest } : EvalState).execOp C txTo nIn nHashType OP_CHECKHYBRIDSIG pc) rest) ↔
      (pubPair.1.length = ECDSA_PUBKEY_SIZE ↔ st.nOpCount + 1 ≤ 201) ∨
        ¬ ValidPair C txTo nIn nHashType
          (dropSignatures st.pbegincodehash [sigPair.1, sigPair.2]) sigPair pubPair)) := by
  constructor
  · intro scriptCode
    rw [multisigPair_iff txTo nIn nHashType scriptCode sigPair pubPair hsound,
      VerifyHybridSignature_iff txTo nIn nHashType scriptCode sigPair pubPair hsound]
    tauto
  · intro st rest vchN vchM pc hchecks hn hm
    subst hchecks
    rw [execOp_multiHybrid, execOp_checkHybridSig,
      multiHybrid_single txTo nIn nHashType _ sigPair pubPair rest hn hm rfl,
      hybrid_single txTo nIn nHashType _ sigPair pubPair rest rfl]
    rw [multisigPair_iff txTo nIn nHashType _ sigPair pubPair hsound,
      VerifyHybridSignature_iff txTo nIn nHashType _ sigPair pubPair hsound]
    tauto

/-! ## The opcode as a whole -/

/-- `OP_CHECKMULTIHYBRIDSIG` replaces counts, keys and signatures by whether there is an
assignment in order of the signatures to keys that they verify under; it fails on all other stacks
and where there is no signature hash, and it reads nothing outside of the stack. -/
theorem checkMultiHybridSig_semantics {C : SignatureCrypto} {txTo : CTransaction}
    {nIn nHashType : ℕ} {st : EvalState} (pc : CScript) (hsound : CacheSound C st.checks) :
    (∀ keys sigs rest sigHashType preimage, MultisigStack nHashType st keys sigs rest sigHashType →
      (sigs ≠ [] → ConstructSignatureHashPreimage (multisigScriptCode st sigs) txTo nIn
        sigHashType = some preimage) →
      st.stack.length = 2 * keys.length + 2 * sigs.length + 2 + rest.length ∧
      ∃ fSuccess checks, st.execOp C txTo nIn nHashType OP_CHECKMULTIHYBRIDSIG pc =
          .ok { st with stack := boolPush fSuccess rest, nOpCount := st.nOpCount + keys.length,
                        checks } ∧
        (fSuccess = true ↔ OrderedMatch (pairVerifies C preimage) sigs keys)) ∧
    ((¬ ∃ keys sigs rest sigHashType, MultisigStack nHashType st keys sigs rest sigHashType ∧
        (sigs ≠ [] → (ConstructSignatureHashPreimage (multisigScriptCode st sigs) txTo nIn
          sigHashType).isSome = true)) →
      ∃ failure, st.execOp C txTo nIn nHashType OP_CHECKMULTIHYBRIDSIG pc = .error failure) ∧
    st.opCheckMultiHybridSigAt C txTo nIn nHashType =
      some (st.execOp C txTo nIn nHashType OP_CHECKMULTIHYBRIDSIG pc) := by
  rw [execOp_multiHybrid]
  refine ⟨?_, ?_, opCheckMultiHybridSigAt_eq C txTo nIn nHashType st⟩
  · intro keys sigs rest sigHashType preimage h hpre
    exact ⟨h.length, h.op_ok hsound hpre⟩
  · intro hother
    cases hop : st.opCheckMultiHybridSig C txTo nIn nHashType with
    | error failure => exact ⟨failure, rfl⟩
    | ok st' => exact absurd (multisigStack_of_ok hop) hother

namespace HybridExample

/-- A transaction with one input and as many outputs as given. -/
def exampleTx (vout : List CTxOut) : CTransaction := ⟨1, [⟨⟨1, 0⟩, [], 0⟩], vout, 0⟩

def keyPair (nSize : ℕ) : valtype × valtype := (replicate nSize 2, replicate 1952 7)

def signature (nHashType : UInt8) : valtype × valtype :=
  (replicate 8 1 ++ [nHashType], replicate 3309 1 ++ [nHashType])

/-- One signature above the keys that may have made it. -/
def multisigState (pubPairs : List (valtype × valtype)) (nHashType : UInt8) : EvalState where
  stack := [UInt8.ofNat pubPairs.length] ::
    (flattenPairs pubPairs ++ [1] :: (flattenPairs [signature nHashType] ++ []))
  nOpCount := 1
  pbegincodehash := [OP_CHECKMULTIHYBRIDSIG]
  checks := {}

theorem signature_ne_nil (nHashType : UInt8) :
    (signature nHashType).1 ≠ [] ∧ (signature nHashType).2 ≠ [] := by
  exact ⟨append_ne_nil_of_right_ne_nil _ (cons_ne_nil _ _),
    append_ne_nil_of_right_ne_nil _ (cons_ne_nil _ _)⟩

theorem backByte_append_singleton (vch : valtype) (b : UInt8) :
    backByte (vch ++ [b]) = b.toNat := by
  rw [backByte, getLastD_concat]

theorem multisigStack_example {pubPairs : List (valtype × valtype)} (nHashType : UInt8)
    (hcount : CastToBigNum [UInt8.ofNat pubPairs.length] = some pubPairs.length)
    (hpos : 1 ≤ pubPairs.length) (hle : pubPairs.length ≤ 20) :
    MultisigStack 0 (multisigState pubPairs nHashType) pubPairs [signature nHashType] []
      nHashType.toNat := by
  refine ⟨⟨⟨_, [1], rfl, hcount, rfl⟩, hle, hpos, ?_⟩, ?_, ?_, ?_⟩
  · show 1 + pubPairs.length ≤ 201
    omega
  · intro sigPair hmem
    rw [mem_singleton] at hmem
    subst hmem
    exact signature_ne_nil nHashType
  · intro sigPair hmem
    rw [mem_singleton] at hmem
    subst hmem
    exact ⟨backByte_append_singleton _ _, backByte_append_singleton _ _⟩
  · intro _
    exact Or.inl rfl

end HybridExample

open HybridExample

/-- A pair of keys whose ML-DSA half is missing, and a good one. -/
def twoKeys : List (valtype × valtype) := [(replicate 33 2, []), keyPair 33]

theorem pairVerifies_signature (preimage : List UInt8) (pubPair : valtype × valtype) :
    pairVerifies acceptingSignatures preimage (signature 1) pubPair =
      decide (pubPair.2.length = ML_DSA_65_PUBKEY_SIZE) := by
  have hsize : (signature 1).2.dropLast.length = ML_DSA_65_SIG_SIZE - 1 := by
    rw [signature, dropLast_concat, length_replicate]
    rfl
  have hec : ecVerifies acceptingSignatures (acceptingSignatures.Hash preimage) (signature 1).1
      pubPair.1 = true := rfl
  rw [pairVerifies, hec, mldsaVerifies, hsize]
  simp [acceptingSignatures]

/-- One signature of two keys: it is not the first key's, and the result is true. -/
theorem checkMultiHybridSig_twoKeys :
    ∃ checks, (multisigState twoKeys 1).execOp acceptingSignatures (exampleTx []) 0 0
        OP_CHECKMULTIHYBRIDSIG [] =
      .ok { multisigState twoKeys 1 with stack := boolPush true [], nOpCount := 3, checks } := by
  have hpre : (ConstructSignatureHashPreimage (multisigScriptCode (multisigState twoKeys 1)
      [signature 1]) (exampleTx []) 0 1).isSome = true := by decide
  obtain ⟨preimage, hpre⟩ := isSome_iff_exists.mp hpre
  obtain ⟨-, fSuccess, checks, hop, hsuccess⟩ := (@checkMultiHybridSig_semantics
    acceptingSignatures (exampleTx []) 0 0 (multisigState twoKeys 1) []
    (cacheSound_empty acceptingSignatures)).1 _ _ _ _ preimage
    (multisigStack_example 1 rfl (by decide) (by decide)) (fun _ => hpre)
  have hmatch : OrderedMatch (pairVerifies acceptingSignatures preimage) [signature 1] twoKeys :=
    (greedyMatch_iff _).mp (by
      rw [twoKeys, greedyMatch, pairVerifies_signature, if_neg (by decide), greedyMatch,
        pairVerifies_signature]
      exact if_pos (decide_eq_true length_replicate))
  obtain rfl := hsuccess.mpr hmatch
  exact ⟨checks, hop⟩

/-- `SIGHASH_SINGLE` without an output of the input's index: the stack is well formed, and the
script fails. -/
theorem checkMultiHybridSig_single_error :
    MultisigStack 0 (multisigState [keyPair 33] 3) [keyPair 33] [signature 3] [] 3 ∧
      ((multisigState [keyPair 33] 3).execOp acceptingSignatures (exampleTx []) 0 0
        OP_CHECKMULTIHYBRIDSIG []).toOption.isSome = false :=
  ⟨multisigStack_example 3 rfl le_rfl (by decide), by decide +kernel⟩

/-- A valid signature under an uncompressed key: the multisig opcode takes it, the single one
does not. -/
theorem hybridRule_uncompressed :
    (multisigPair acceptingSignatures (exampleTx [⟨0, []⟩]) 0 0 [] (signature 1) (keyPair 65)
        {}).1 = true ∧
      (VerifyHybridSignature acceptingSignatures (signature 1) (keyPair 65) [] (exampleTx [⟨0, []⟩])
        0 0 {}).1 = false := by
  decide +kernel

theorem hybridRule_compressed :
    (multisigPair acceptingSignatures (exampleTx [⟨0, []⟩]) 0 0 [] (signature 1) (keyPair 33)
        {}).1 = true ↔
      (VerifyHybridSignature acceptingSignatures (signature 1) (keyPair 33) [] (exampleTx [⟨0, []⟩])
        0 0 {}).1 = true :=
  ((hybridRule_iff (cacheSound_empty acceptingSignatures) (exampleTx [⟨0, []⟩]) 0 0 (signature 1)
    (keyPair 33)).1 []).mpr (Or.inl rfl)

end Phoenixcoin.Analysis
