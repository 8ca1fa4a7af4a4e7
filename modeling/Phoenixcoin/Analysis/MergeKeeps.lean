import Phoenixcoin.Analysis.SignatureMerging

/-!
# When merging keeps a spend

The exact condition for the merged `scriptSig` to spend, and what is left of it for `scriptSig`s
that are pushes of whole signatures: nothing for a legacy multisig but the size of the result, and
for a hybrid one that the pairs of the first keys have one hash type.
-/

set_option autoImplicit false

namespace Phoenixcoin.Analysis

open Program Lib EvalState txnouttype List

/-! ## Whole pairs -/

def pairsOf (sigs : Stack) : List (valtype × valtype) :=
  valuePairs (sigs.reverse.filter fun v => v ≠ [])

def WholePairs (sigs : Stack) : Prop := (sigs.reverse.filter fun v => v ≠ []).length % 2 = 0

variable {values : List valtype} {pairs : List (valtype × valtype)}

theorem pairValues_valuePairs (h : values.length % 2 = 0) :
    pairValues (valuePairs values) = values := by
  induction values using valuePairs.induct with
  | case1 ec ml values ih =>
    have hrest : values.length % 2 = 0 := by
      rw [length_cons, length_cons] at h
      omega
    rw [pairValues]
    exact congrArg (fun rest => ec :: ml :: rest) (ih hrest)
  | case2 values hshort =>
    cases values with
    | nil => rfl
    | cons v values =>
      cases values with
      | nil => simp at h
      | cons w values => exact absurd rfl (hshort v w values)

theorem pairValues_append (pairs pairs' : List (valtype × valtype)) :
    pairValues (pairs ++ pairs') = pairValues pairs ++ pairValues pairs' := flatMap_append

theorem pairValues_injective {pairs' : List (valtype × valtype)}
    (h : pairValues pairs = pairValues pairs') : pairs = pairs' := by
  have hflat := congrArg reverse h
  rw [reverse_pairValues, reverse_pairValues] at hflat
  exact reverse_injective (flattenPairs_injective hflat)

theorem nonEmptyValues_eq (sigs1 sigs2 : Stack) :
    nonEmptyValues sigs1 sigs2 = (sigs1.reverse.filter fun v => v ≠ []) ++
      (sigs2.reverse.filter fun v => v ≠ []) := filter_append ..

theorem valuePairs_nonEmptyValues {sigs1 : Stack} (h : WholePairs sigs1) (sigs2 : Stack) :
    valuePairs (nonEmptyValues sigs1 sigs2) = pairsOf sigs1 ++ pairsOf sigs2 := by
  rw [nonEmptyValues_eq, ← pairValues_valuePairs h, valuePairs_append]
  rfl

theorem sublist_pairsOf {sigs : Stack} {rest : List valtype} (h : WholePairs sigs)
    (hsplit : sigs.reverse = rest ++ pairValues pairs) (hnonempty : ∀ v ∈ pairValues pairs, v ≠ [])
    :
    pairs.Sublist (pairsOf sigs) := by
  have hfilter : (sigs.reverse.filter fun v => v ≠ []) =
      (rest.filter fun v => v ≠ []) ++ pairValues pairs := by
    rw [hsplit, filter_append]
    congr 1
    rw [filter_eq_self]
    intro v hv
    exact decide_eq_true (hnonempty v hv)
  have hlength := length_pairValues pairs
  have hbelow : (rest.filter fun v => v ≠ []).length % 2 = 0 := by
    rw [WholePairs, hfilter, length_append] at h
    omega
  have hall : valuePairs (pairValues pairs) = pairs := by
    have happend := @valuePairs_append pairs []
    rw [append_nil] at happend
    exact happend.trans (append_nil pairs)
  rw [pairsOf, hfilter, ← pairValues_valuePairs hbelow, valuePairs_append, hall]
  exact sublist_append_right _ _

section Hybrid

variable {C : SignatureCrypto} {txTo : CTransaction} {nIn m : ℕ} {R : CScript}

variable {keys : List (valtype × valtype)}

/-- What a hybrid multisig accepts is matched by the combiner, if the keys are compressed and no
signature stands in the script. -/
theorem HybridAccepts.fits {stack : Stack} (h : HybridAccepts C txTo nIn R m keys stack)
    (hcompressed : ∀ key ∈ keys, key.1.length = ECDSA_PUBKEY_SIZE)
    (houtside : ∀ v ∈ stack, v ≠ [] → FindAndDelete R (pushData v) = R) :
    ∃ pairs rest, stack.reverse = rest ++ pairValues pairs ∧ pairs.length = m ∧
      (∀ v ∈ pairValues pairs, v ≠ []) ∧ ∃ keys', keys'.Sublist keys ∧
        Forall₂ (fun sigPair key => hybridVerifies C txTo nIn R sigPair key = true) pairs
          keys' := by
  obtain ⟨sigs, rest, sigHashType, preimage, rfl, hcount, hnonempty, honeType, hpreimage,
    hmatch⟩ := h
  have hvalues : ∀ v ∈ sigs.flatMap fun sigPair => [sigPair.1, sigPair.2], v ≠ [] ∧
      FindAndDelete R (pushData v) = R := by
    intro v hv
    have hstack : v ∈ flattenPairs sigs ++ rest := by
      apply mem_append_left
      rw [← reverse_reverse sigs, ← reverse_pairValues, mem_reverse]
      obtain ⟨sigPair, hmem, hv⟩ := mem_flatMap.mp hv
      exact mem_flatMap.mpr ⟨sigPair, mem_reverse.mpr hmem, hv⟩
    obtain ⟨sigPair, hmem, hv⟩ := mem_flatMap.mp hv
    have hne : v ≠ [] := by
      rcases mem_pair.mp hv with rfl | rfl
      · exact (hnonempty sigPair hmem).1
      · exact (hnonempty sigPair hmem).2
    exact ⟨hne, houtside v hstack hne⟩
  have hcode := dropSignatures_outside (R := R) fun v hv => (hvalues v hv).2
  rw [hcode] at hpreimage
  have hfits : OrderedMatch (hybridVerifies C txTo nIn R) sigs keys.reverse := by
    apply hmatch.mono
    intro sigPair hmem key hkey hpair
    obtain ⟨hec, hml⟩ := honeType sigPair hmem
    rw [hybridVerifies_iff]
    exact ⟨hcompressed key (mem_reverse.mp hkey), hnonempty sigPair hmem, hml.trans hec.symm,
      Or.inl rfl, preimage, by rw [hec]; exact hpreimage, hpair⟩
  have hordered := hfits.reverse
  rw [reverse_reverse] at hordered
  obtain ⟨keys', hsub, hall⟩ := (orderedMatch_iff_sublist _).mp hordered
  refine ⟨sigs.reverse, rest.reverse, ?_, ?_, ?_, keys', hsub, hall⟩
  · rw [reverse_append, ← reverse_reverse (pairValues sigs.reverse), reverse_pairValues,
      reverse_reverse]
  · rw [length_reverse]
    exact hcount
  · intro v hv
    obtain ⟨sigPair, hmem, hv⟩ := mem_flatMap.mp hv
    exact (hvalues v (mem_flatMap.mpr ⟨sigPair, mem_reverse.mp hmem, hv⟩)).1

theorem length_mergedPairs_of_match {keys' pairs : List (valtype × valtype)} {sigs1 sigs2 : Stack}
    (hpairs : pairs.Subperm (valuePairs (nonEmptyValues sigs1 sigs2))) (hkeys : keys'.Sublist keys)
    (hcount : pairs.length = m)
    (hall : Forall₂ (fun sigPair key => hybridVerifies C txTo nIn R sigPair key = true) pairs
      keys') :
    (mergedPairs C txTo nIn R m keys sigs1 sigs2).length = m := by
  have hle := length_le_firstFits hpairs hkeys.subperm hall
  rw [mergedPairs, length_take]
  omega

end Hybrid

section Legacy

variable {C : SignatureCrypto} {txTo : CTransaction} {nIn m : ℕ} {R : CScript}

variable {keys : List valtype}

theorem LegacyAccepts.fits {stack : Stack} (h : LegacyAccepts C txTo nIn R m keys stack)
    (houtside : ∀ v ∈ stack, v ≠ [] → FindAndDelete R (pushData v) = R) :
    ∃ sigs, sigs.length = m ∧ (∀ sig ∈ sigs, sig ∈ stack ∧ sig ≠ []) ∧
      ∃ keys', keys'.Sublist keys ∧
        Forall₂ (fun sig key => sigVerifies C R txTo nIn sig key = true) sigs keys' := by
  obtain ⟨hheight, hmatch⟩ := h
  have hnonempty : ∀ sig ∈ stack.take m, sig ≠ [] := by
    intro sig hsig hnil
    obtain ⟨f, hf⟩ := hmatch
    obtain ⟨i, rfl⟩ := get_of_mem hsig
    have hverifies := hf i
    rw [hnil] at hverifies
    exact not_sigVerifies_nil _ hverifies
  have hcode : dropSignatures R (stack.take m) = R := dropSignatures_outside fun sig hsig =>
    houtside sig (mem_of_mem_take hsig) (hnonempty sig hsig)
  rw [hcode] at hmatch
  have hordered := hmatch.reverse
  rw [reverse_reverse] at hordered
  obtain ⟨keys', hsub, hall⟩ := (orderedMatch_iff_sublist _).mp hordered
  refine ⟨(stack.take m).reverse, ?_, ?_, keys', hsub, hall⟩
  · rw [length_reverse, length_take]
    omega
  · intro sig hsig
    have hmem := mem_reverse.mp hsig
    exact ⟨mem_of_mem_take hmem, hnonempty sig hmem⟩

theorem length_mergedSigs_of_match {keys' sigs : List valtype} {sigs1 sigs2 : Stack}
    (hsigs : ∀ sig ∈ sigs, sig ∈ nonEmptyValues sigs1 sigs2) (hkeys : keys'.Sublist keys)
    (hcount : sigs.length = m)
    (hall : Forall₂ (fun sig key => sigVerifies C R txTo nIn sig key = true) sigs keys') :
    (mergedSigs C txTo nIn R m keys sigs1 sigs2).length = m := by
  have hfound : ∀ key ∈ keys', ((sigSet (nonEmptyValues sigs1 sigs2)).find? fun sig =>
      sigVerifies C R txTo nIn sig key).isSome = true := by
    intro key hkey
    obtain ⟨i, hi, rfl⟩ := getElem_of_mem hkey
    have hverifies := (forall₂_iff_get.mp hall).2 i (hall.length_eq ▸ hi) hi
    rw [find?_isSome]
    exact ⟨_, mem_sigSet.mpr (hsigs _ (get_mem _ _)), hverifies⟩
  have hlength : keys'.length = (keys'.filterMap fun key =>
      (sigSet (nonEmptyValues sigs1 sigs2)).find? fun sig =>
        sigVerifies C R txTo nIn sig key).length := by
    clear hall hkeys
    induction keys' with
    | nil => rfl
    | cons key keys' ih =>
      obtain ⟨sig, hsig⟩ := Option.isSome_iff_exists.mp (hfound key mem_cons_self)
      rw [filterMap_cons, hsig, length_cons, length_cons,
        ih fun key' hkey' => hfound key' (mem_cons_of_mem _ hkey')]
  have hle := (hkeys.filterMap fun key => (sigSet (nonEmptyValues sigs1 sigs2)).find? fun sig =>
    sigVerifies C R txTo nIn sig key).length_le
  have hsame := hall.length_eq
  rw [mergedSigs, length_take]
  omega

end Legacy

/-! ## Spends of whole signatures -/

namespace Merge

variable (C : SignatureCrypto) (M : Merge) (R : CScript)

/-- A `scriptSig` that is composed of `m` of the pairs of the two. -/
def HybridComposed (m : ℕ) (form : SpentForm) (scriptSig : CScript) : Prop :=
  ∃ pairs, pairs.length = m ∧ pairs.Subperm
      (pairsOf (form.signatures (M.stack1 C)) ++ pairsOf (form.signatures (M.stack2 C))) ∧
    scriptSig = PushAll (pairValues pairs ++ form.tail R)

/-- A `scriptSig` that is composed of `m` of the signatures of the two. -/
def LegacyComposed (m : ℕ) (form : SpentForm) (scriptSig : CScript) : Prop :=
  ∃ sigs, sigs.length = m ∧ sigs.Subperm
      (nonEmptyValues (form.signatures (M.stack1 C)) (form.signatures (M.stack2 C))) ∧
    scriptSig = PushAll ([[]] ++ sigs ++ form.tail R)

/-- Two `scriptSig`s that push values, with the script on top where its hash is spent; none of the
values stands in the script. -/
structure Plain (form : SpentForm) : Prop where
  pushOnly1 : IsPushOnly M.scriptSig1 = true
  pushOnly2 : IsPushOnly M.scriptSig2 = true
  script1 : form = .scriptHash → (M.stack1 C).headD [] = R
  script2 : form = .scriptHash → (M.stack2 C).headD [] = R
  outside : ∀ v ∈ nonEmptyValues (form.signatures (M.stack1 C)) (form.signatures (M.stack2 C)),
    FindAndDelete R (pushData v) = R

structure PlainPairs (keys : List (valtype × valtype)) (form : SpentForm) : Prop
    extends Plain C M R form where
  whole1 : WholePairs (form.signatures (M.stack1 C))
  whole2 : WholePairs (form.signatures (M.stack2 C))
  compressed : ∀ key ∈ keys, key.1.length = ECDSA_PUBKEY_SIZE

variable {C M R}

theorem mem_nonEmptyValues {sigs1 sigs2 : Stack} {v : valtype} (h : v ∈ sigs1 ∨ v ∈ sigs2)
    (hne : v ≠ []) : v ∈ nonEmptyValues sigs1 sigs2 := by
  rw [nonEmptyValues, mem_filter, mem_append, mem_reverse, mem_reverse]
  exact ⟨h, decide_eq_true hne⟩

variable {form : SpentForm} {m : ℕ}

theorem mergeOk_of_plain {ok : Stack → Stack → Prop} (h : M.Plain C R form) (hne : R ≠ []) :
    M.MergeOk C R ok form ↔ ok (form.signatures (M.stack1 C)) (form.signatures (M.stack2 C)) := by
  cases form with
  | bare => exact Iff.rfl
  | scriptHash =>
    have h1 := h.script1 rfl
    have h2 := h.script2 rfl
    rw [MergeOk, if_neg (by rw [h1]; exact hne), if_neg (by rw [h2]; exact hne)]
    exact and_iff_right h1

theorem length_mergedPairs_of_spendable {keys : List (valtype × valtype)}
    (hscript : HybridScript R m keys) (hsound : CacheSound C M.checks)
    (hplain : M.PlainPairs C R keys form)
    (hspend : M.Spendable C (form.scriptPubKey C.toDigests R) (M.HybridComposed C R m form)) :
    (mergedPairs C M.txTo M.nIn R m keys (form.signatures (M.stack1 C))
      (form.signatures (M.stack2 C))).length = m := by
  have hnot := hscript.not_isPayToScriptHash
  have hsmall := hscript.small
  have hle := hscript.le
  have hall := valuePairs_nonEmptyValues hplain.whole1 (form.signatures (M.stack2 C))
  -- The pairs that a stack is accepted for are enough, if they are among those of the two.
  have henough {stack : Stack} (htrue : EvalTrue C M.txTo M.nIn stack R M.checks)
      (houtside : ∀ v ∈ stack, v ≠ [] → FindAndDelete R (pushData v) = R)
      (hamong : ∀ pairs rest, stack.reverse = rest ++ pairValues pairs → pairs.length = m →
        (∀ v ∈ pairValues pairs, v ≠ []) → pairs.Subperm
          (pairsOf (form.signatures (M.stack1 C)) ++ pairsOf (form.signatures (M.stack2 C)))) :
      (mergedPairs C M.txTo M.nIn R m keys (form.signatures (M.stack1 C))
        (form.signatures (M.stack2 C))).length = m := by
    obtain ⟨pairs, rest, hsplit, hcount, hnonempty, keys', hsub, hmatch⟩ :=
      ((evalTrue_hybrid_iff hscript hsound stack).mp htrue).2.fits hplain.compressed houtside
    apply length_mergedPairs_of_match _ hsub hcount hmatch
    rw [hall]
    exact hamong pairs rest hsplit hcount hnonempty
  obtain ⟨scriptSig, hwhich, hspends⟩ := hspend
  rcases hwhich with rfl | rfl | hcomposed
  · apply henough (evalTrue_of_spends form M.checks hnot hplain.pushOnly1 hplain.script1 hspends)
    · intro v hv hne
      exact hplain.outside v (mem_nonEmptyValues (Or.inl hv) hne)
    · intro pairs rest hsplit _ hnonempty
      have hown := sublist_pairsOf hplain.whole1 hsplit hnonempty
      exact (hown.trans (sublist_append_left _ _)).subperm
  · apply henough (evalTrue_of_spends form (evalStack C M.scriptSig1 M.checks).2 hnot
      hplain.pushOnly2 hplain.script2 hspends)
    · intro v hv hne
      exact hplain.outside v (mem_nonEmptyValues (Or.inr hv) hne)
    · intro pairs rest hsplit _ hnonempty
      have hown := sublist_pairsOf hplain.whole2 hsplit hnonempty
      exact (hown.trans (sublist_append_right _ _)).subperm
  · obtain ⟨composed, hcount, hsubperm, rfl⟩ := hcomposed
    have hlength := length_pairValues composed
    have htrue := ((spends_pushes_iff C M.txTo M.nIn M.checks form hnot (by omega)).mp hspends).2
    apply henough htrue
    · intro v hv _
      apply hplain.outside
      obtain ⟨sigPair, hmem, hv⟩ := mem_flatMap.mp (mem_reverse.mp hv)
      rw [nonEmptyValues_eq, ← pairValues_valuePairs hplain.whole1,
        ← pairValues_valuePairs hplain.whole2, ← pairValues_append]
      exact mem_flatMap.mpr ⟨sigPair, hsubperm.subset hmem, hv⟩
    · intro pairs rest hsplit hcount' _
      rw [reverse_reverse] at hsplit
      have hlengths := congrArg length hsplit
      rw [length_append, length_pairValues, length_pairValues] at hlengths
      have hrest : rest = [] := eq_nil_of_length_eq_zero (by omega)
      rw [hrest] at hsplit
      rw [← pairValues_injective hsplit]
      exact hsubperm

theorem length_mergedSigs_of_spendable {keys : List valtype} (hscript : LegacyScript R m keys)
    (hsound : CacheSound C M.checks) (hplain : M.Plain C R form)
    (hspend : M.Spendable C (form.scriptPubKey C.toDigests R) (M.LegacyComposed C R m form)) :
    (mergedSigs C M.txTo M.nIn R m keys (form.signatures (M.stack1 C))
      (form.signatures (M.stack2 C))).length = m := by
  have hnot := hscript.not_isPayToScriptHash
  have hsmall := hscript.small
  have hle := hscript.le
  have henough {stack : Stack} (htrue : EvalTrue C M.txTo M.nIn stack R M.checks)
      (hamong : ∀ v ∈ stack, v ≠ [] → v ∈ nonEmptyValues (form.signatures (M.stack1 C))
        (form.signatures (M.stack2 C))) :
      (mergedSigs C M.txTo M.nIn R m keys (form.signatures (M.stack1 C))
        (form.signatures (M.stack2 C))).length = m := by
    obtain ⟨sigs, hcount, hstack, keys', hsub, hmatch⟩ :=
      ((evalTrue_legacy_iff hscript hsound stack).mp htrue).2.fits fun v hv hne =>
        hplain.outside v (hamong v hv hne)
    apply length_mergedSigs_of_match _ hsub hcount hmatch
    intro sig hsig
    obtain ⟨hmem, hne⟩ := hstack sig hsig
    exact hamong sig hmem hne
  obtain ⟨scriptSig, hwhich, hspends⟩ := hspend
  rcases hwhich with rfl | rfl | hcomposed
  · apply henough (evalTrue_of_spends form M.checks hnot hplain.pushOnly1 hplain.script1 hspends)
    intro v hv hne
    exact mem_nonEmptyValues (Or.inl hv) hne
  · apply henough (evalTrue_of_spends form (evalStack C M.scriptSig1 M.checks).2 hnot
      hplain.pushOnly2 hplain.script2 hspends)
    intro v hv hne
    exact mem_nonEmptyValues (Or.inr hv) hne
  · obtain ⟨composed, hcount, hsubperm, rfl⟩ := hcomposed
    have hfew : ([[]] ++ composed).length ≤ 900 := by
      rw [length_append, length_singleton]
      omega
    have htrue := ((spends_pushes_iff C M.txTo M.nIn M.checks form hnot hfew).mp hspends).2
    apply henough htrue
    intro v hv hne
    rcases mem_append.mp (mem_reverse.mp hv) with hnil | hmem
    · exact absurd (mem_singleton.mp hnil) hne
    · exact hsubperm.subset hmem

end Merge

theorem MultisigScript.ne_nil {R : CScript} {opcode : opcodetype} {m n : ℕ}
    (h : MultisigScript R opcode m n values) : R ≠ [] := by
  rintro rfl
  obtain ⟨vchM, vchN, hpushes, -, -⟩ := h.pushes
  cases hpushes with
  | cons first _ =>
    obtain ⟨op, vch, hget, -, -⟩ := first
    cases hget

/-! ## The condition -/

variable (solutions : List valtype)

/-- The number of signatures that a multisig demands, from what `Solver` says about it. -/
def requiredSigs : ℕ := frontByte (solutions.headD [])

def hybridKeys : List (valtype × valtype) :=
  valuePairs (solutions.drop 1)

def legacyKeys : List valtype :=
  (solutions.drop 1).take (solutions.length - 2)

theorem hybridSolutions_spec {m : ℕ} {keys : List (valtype × valtype)} (h : m ≤ 16) :
    requiredSigs (hybridSolutions m keys) = m ∧ hybridKeys (hybridSolutions m keys) = keys := by
  refine ⟨toNat_ofNat_small h, ?_⟩
  rw [hybridKeys, hybridSolutions, drop_one, tail_cons, valuePairs_append]
  exact append_nil keys

theorem legacySolutions_spec {m : ℕ} {keys : List valtype} (h : m ≤ 16) :
    requiredSigs (legacySolutions m keys) = m ∧ legacyKeys (legacySolutions m keys) = keys := by
  refine ⟨toNat_ofNat_small h, ?_⟩
  rw [legacyKeys, legacySolutions, drop_one]
  apply take_left'
  rw [length_cons, length_append, length_singleton]
  omega

open Merge in
/-- Merging keeps a spend exactly when the combiner finds enough signatures for the first keys, and
in a hybrid multisig these have one hash type. Where the `scriptSig`s are pushes of whole
signatures, it always finds enough of them. -/
theorem combineSignatures_keeps_iff (C : SignatureCrypto) (M : Merge) (R : CScript)
    (form : SpentForm) (hsound : CacheSound C M.checks)
    (hcollision : form = .scriptHash →
      C.Hash160 ((M.stack1 C).headD []) = C.Hash160 R → (M.stack1 C).headD [] = R) :
    (∀ solutions, Solver R = some (TX_HYBRID_MULTISIG, solutions) →
      PairsUnambiguous C M.txTo M.nIn R (hybridKeys solutions) (form.signatures (M.stack1 C))
        (form.signatures (M.stack2 C)) → (M.Keeps C (form.scriptPubKey C.toDigests R)
          (M.HybridComposed C R (requiredSigs solutions) form) ↔
        (M.Spendable C (form.scriptPubKey C.toDigests R)
            (M.HybridComposed C R (requiredSigs solutions) form) →
          M.MergeOk C R (M.HybridOk C R (requiredSigs solutions) (hybridKeys solutions) form)
            form)) ∧ (M.PlainPairs C R (hybridKeys solutions) form →
        (M.Keeps C (form.scriptPubKey C.toDigests R)
            (M.HybridComposed C R (requiredSigs solutions) form) ↔
          (M.Spendable C (form.scriptPubKey C.toDigests R)
              (M.HybridComposed C R (requiredSigs solutions) form) →
            (∃ sigHashType, ∀ sigPair ∈ mergedPairs C M.txTo M.nIn R (requiredSigs solutions)
                (hybridKeys solutions) (form.signatures (M.stack1 C))
                (form.signatures (M.stack2 C)), backByte sigPair.1 = sigHashType) ∧
              Pushable (pairValues (mergedPairs C M.txTo M.nIn R (requiredSigs solutions)
                (hybridKeys solutions) (form.signatures (M.stack1 C))
                (form.signatures (M.stack2 C))) ++ form.tail R))))) ∧
    (∀ solutions, Solver R = some (TX_MULTISIG, solutions) →
      SigsUnambiguous C M.txTo M.nIn R (legacyKeys solutions) (form.signatures (M.stack1 C))
        (form.signatures (M.stack2 C)) → (M.Keeps C (form.scriptPubKey C.toDigests R)
          (M.LegacyComposed C R (requiredSigs solutions) form) ↔
        (M.Spendable C (form.scriptPubKey C.toDigests R)
            (M.LegacyComposed C R (requiredSigs solutions) form) →
          M.MergeOk C R (M.LegacyOk C R (requiredSigs solutions) (legacyKeys solutions) form)
            form)) ∧ (M.Plain C R form → (M.Keeps C (form.scriptPubKey C.toDigests R)
            (M.LegacyComposed C R (requiredSigs solutions) form) ↔
          (M.Spendable C (form.scriptPubKey C.toDigests R)
              (M.LegacyComposed C R (requiredSigs solutions) form) →
            Pushable ([[]] ++ mergedSigs C M.txTo M.nIn R (requiredSigs solutions)
              (legacyKeys solutions) (form.signatures (M.stack1 C))
              (form.signatures (M.stack2 C)) ++ form.tail R))))) := by
  constructor
  · intro solutions hsolver honly
    obtain ⟨m, keys, hscript, hsolutions⟩ := hybridScript_of_Solver hsolver
    have hsmall := hscript.small
    have hle := hscript.le
    obtain ⟨hm, hkeys⟩ := @hybridSolutions_spec m keys (by omega)
    have hform : solutions = hybridSolutions m keys := hsolutions
    subst hform
    rw [hm, hkeys] at *
    have hiff := merged_hybrid_iff form hsound hscript hsolver hcollision honly
    refine ⟨imp_congr_right fun _ => hiff, ?_⟩
    intro hplain
    refine imp_congr_right fun hspend => hiff.trans ?_
    have hcount := length_mergedPairs_of_spendable hscript hsound hplain hspend
    exact (mergeOk_of_plain hplain.toPlain hscript.ne_nil).trans (and_iff_right hcount)
  · intro solutions hsolver honly
    obtain ⟨m, keys, hscript, hsolutions⟩ := legacyScript_of_Solver hsolver
    have hsmall := hscript.small
    have hle := hscript.le
    obtain ⟨hm, hkeys⟩ := @legacySolutions_spec m keys (by omega)
    have hform : solutions = legacySolutions m keys := hsolutions
    subst hform
    rw [hm, hkeys] at *
    have hiff := merged_legacy_iff form hsound hscript hsolver hcollision honly
    refine ⟨imp_congr_right fun _ => hiff, ?_⟩
    intro hplain
    refine imp_congr_right fun hspend => hiff.trans ?_
    have hcount := length_mergedSigs_of_spendable hscript hsound hplain hspend
    exact (mergeOk_of_plain hplain hscript.ne_nil).trans (and_iff_right hcount)

namespace MergeExample

/-- Signatures that begin with the first byte of their key. -/
def namedSignatures : SignatureCrypto where
  toDigests := acceptingSignatures.toDigests
  SetPubKey _ := true
  Verify vchPubKey _ sig := sig.head? = vchPubKey.head?
  DigestVerify vchPubKey sig _ := sig.head? = vchPubKey.head?
  cacheSet _ cache := cache
  cacheSet_subset := acceptingSignatures.cacheSet_subset

def namedKey (name : UInt8) : valtype × valtype :=
  (replicate 33 name, replicate 1952 name)

def namedPair (name nHashType : UInt8) : valtype × valtype :=
  (replicate 8 name ++ [nHashType], replicate 3309 name ++ [nHashType])

/-- A hybrid multisig that all keys have to sign. -/
def allOf (names : List UInt8) : CScript :=
  [0x50 + UInt8.ofNat names.length] ++ pushPairs (names.map namedKey) ++
    [0x50 + UInt8.ofNat names.length, OP_CHECKMULTIHYBRIDSIG]

/-- The merge of the two for the only input of a transaction. -/
def exampleMerge (pairs1 pairs2 : List (valtype × valtype)) : Merge where
  txTo := HybridExample.exampleTx [⟨0, []⟩]
  nIn := 0
  scriptSig1 := pushPairs pairs1
  scriptSig2 := pushPairs pairs2
  checks := {}

end MergeExample

open MergeExample

/-- The pairs of type ALL for two keys, merged with a pair of type NONE for the first of them. -/
def mixedMerge : Merge := exampleMerge [namedPair 2 2] [namedPair 2 1, namedPair 3 1]

theorem mixedMerge_values :
    (VerifyScript namedSignatures mixedMerge.txTo 0 0 mixedMerge.scriptSig2 (allOf [2, 3]) true
      {}).1 = true ∧
    (VerifyScript namedSignatures mixedMerge.txTo 0 0
      (mixedMerge.merged namedSignatures (allOf [2, 3])).1 (allOf [2, 3]) true
      (mixedMerge.merged namedSignatures (allOf [2, 3])).2).1 = false := by
  decide +kernel

theorem Solver_allOf :
    Solver (allOf [2, 3]) =
      some (TX_HYBRID_MULTISIG, hybridSolutions 2 [namedKey 2, namedKey 3]) := by
  decide +kernel

/-- The second `scriptSig` spends the output of both keys, the merged one does not. -/
theorem combineSignatures_mixedTypes :
    Solver (allOf [2, 3]) =
        some (TX_HYBRID_MULTISIG, hybridSolutions 2 [namedKey 2, namedKey 3]) ∧
      ¬ mixedMerge.Keeps namedSignatures (allOf [2, 3])
        (mixedMerge.HybridComposed namedSignatures (allOf [2, 3]) 2 .bare) := by
  refine ⟨Solver_allOf, ?_⟩
  intro hkeeps
  have hmerged := hkeeps ⟨mixedMerge.scriptSig2, Or.inr (Or.inl rfl), mixedMerge_values.1⟩
  exact absurd (hmerged.symm.trans mixedMerge_values.2) (by decide)

/-- The pair of each of two keys. -/
def halvesMerge : Merge := exampleMerge [namedPair 2 1] [namedPair 3 1]

theorem halvesMerge_unambiguous :
    PairsUnambiguous namedSignatures halvesMerge.txTo 0 (allOf [2, 3]) [namedKey 2, namedKey 3]
      (halvesMerge.stack1 namedSignatures) (halvesMerge.stack2 namedSignatures) := by
  constructor
  · decide +kernel
  · decide +kernel

theorem halvesMerge_pairs :
    mergedPairs namedSignatures halvesMerge.txTo halvesMerge.nIn (allOf [2, 3])
      (requiredSigs (hybridSolutions 2 [namedKey 2, namedKey 3]))
      (hybridKeys (hybridSolutions 2 [namedKey 2, namedKey 3])) (halvesMerge.stack1 namedSignatures)
      (halvesMerge.stack2 namedSignatures) = [namedPair 2 1, namedPair 3 1] := by
  decide +kernel

/-- Neither half spends the output of both keys; merging them keeps what they can do together. -/
theorem combineSignatures_keeps_twoKeys : halvesMerge.Keeps namedSignatures (allOf [2, 3])
        (halvesMerge.HybridComposed namedSignatures (allOf [2, 3]) 2 .bare) ∧
      ¬ halvesMerge.Spends namedSignatures (allOf [2, 3]) halvesMerge.scriptSig1 {} ∧
      ¬ halvesMerge.Spends namedSignatures (allOf [2, 3]) halvesMerge.scriptSig2 {} ∧
      halvesMerge.Spends namedSignatures (allOf [2, 3])
        (halvesMerge.merged namedSignatures (allOf [2, 3])).1
        (halvesMerge.merged namedSignatures (allOf [2, 3])).2 := by
  refine ⟨?_, by unfold Merge.Spends; decide +kernel⟩
  apply ((combineSignatures_keeps_iff namedSignatures halvesMerge (allOf [2, 3]) .bare
    (cacheSound_empty namedSignatures) nofun).1 _ Solver_allOf halvesMerge_unambiguous).1.mpr
  intro _
  refine ⟨?_, ⟨1, ?_⟩, ?_⟩
  · rw [halvesMerge_pairs]
    rfl
  · rw [halvesMerge_pairs]
    decide +kernel
  · rw [halvesMerge_pairs]
    exact ⟨by decide +kernel, by decide +kernel⟩

end Phoenixcoin.Analysis
