import Phoenixcoin.Analysis.MultisigScripts
import Phoenixcoin.Lib.FirstFit

/-!
# Merging keeps spends

When a `scriptSig` that spends a multisig is merged with another one, does the result spend it too?
The combiner gives every key the next signature that is valid under it, and hands on those of the
first keys. A legacy multisig needs no more; a hybrid one also demands that all signatures have one
hash type, which the combiner does not look at.
-/

set_option autoImplicit false

namespace Phoenixcoin.Analysis

open Program Lib EvalState txnouttype List

/-! ## The matching of pairs -/

/-- A pair of signatures that `CombineHybridMultisig` takes for a pair of keys. -/
def hybridVerifies (C : SignatureCrypto) (txTo : CTransaction) (nIn : ℕ) (R : CScript)
    (sigPair pubPair : valtype × valtype) : Bool :=
  (VerifyHybridSignature C sigPair pubPair R txTo nIn 0 {}).1

section Hybrid

variable {C : SignatureCrypto} {txTo : CTransaction} {nIn : ℕ} {R : CScript}
  {checks : SignatureChecks}

variable (txTo nIn R) in
theorem VerifyHybridSignature_eq (hsound : CacheSound C checks)
    (sigPair pubPair : valtype × valtype) :
    (VerifyHybridSignature C sigPair pubPair R txTo nIn 0 checks).1 =
      hybridVerifies C txTo nIn R sigPair pubPair := by
  rw [Bool.eq_iff_iff, hybridVerifies,
    VerifyHybridSignature_iff txTo nIn 0 R sigPair pubPair hsound,
    VerifyHybridSignature_iff txTo nIn 0 R sigPair pubPair (cacheSound_empty C)]

theorem hybridVerifies_iff (sigPair pubPair : valtype × valtype) :
    hybridVerifies C txTo nIn R sigPair pubPair = true ↔
      pubPair.1.length = ECDSA_PUBKEY_SIZE ∧ ValidPair C txTo nIn 0 R sigPair pubPair :=
  VerifyHybridSignature_iff txTo nIn 0 R sigPair pubPair (cacheSound_empty C)

variable (txTo nIn R) in
theorem placePair_eq (hsound : CacheSound C checks) (sigPair : valtype × valtype)
    (slots : List KeySlot) :
    (placePair C txTo nIn R sigPair slots checks).1 =
        placeFirst (hybridVerifies C txTo nIn R) sigPair slots ∧
      CacheSound C (placePair C txTo nIn R sigPair slots checks).2 := by
  induction slots generalizing checks with
  | nil => exact ⟨rfl, hsound⟩
  | cons slot slots ih =>
    obtain ⟨pubPair, found⟩ := slot
    cases found with
    | some found =>
      obtain ⟨heq, hkept⟩ := ih hsound
      exact ⟨congrArg (cons (pubPair, some found)) heq, hkept⟩
    | none =>
      have hverify := VerifyHybridSignature_eq txTo nIn R hsound sigPair pubPair
      have hkept := VerifyHybridSignature_sound R txTo nIn 0 hsound sigPair pubPair
      rw [placePair, placeFirst, ← hverify]
      generalize VerifyHybridSignature C sigPair pubPair R txTo nIn 0 checks = result at hkept
      obtain ⟨fValid, checks₁⟩ := result
      cases fValid with
      | true => exact ⟨rfl, hkept⟩
      | false =>
        obtain ⟨heq, hkept'⟩ := ih hkept
        exact ⟨congrArg (cons (pubPair, none)) heq, hkept'⟩

variable (txTo nIn R) in
theorem foldl_placePair (hsound : CacheSound C checks) (sigPairs : List (valtype × valtype))
    (slots : List KeySlot) :
    (sigPairs.foldl (fun (state : List KeySlot × SignatureChecks) sigPair =>
        placePair C txTo nIn R sigPair state.1 state.2) (slots, checks)).1 =
      sigPairs.foldl (fun slots sigPair => placeFirst (hybridVerifies C txTo nIn R) sigPair slots)
        slots ∧
    CacheSound C (sigPairs.foldl (fun (state : List KeySlot × SignatureChecks) sigPair =>
        placePair C txTo nIn R sigPair state.1 state.2) (slots, checks)).2 := by
  induction sigPairs generalizing slots checks with
  | nil => exact ⟨rfl, hsound⟩
  | cons sigPair sigPairs ih =>
    obtain ⟨heq, hkept⟩ := placePair_eq txTo nIn R hsound sigPair slots
    rw [foldl_cons, foldl_cons, ← heq]
    exact ih hkept _

theorem valuePairs_append {pairs : List (valtype × valtype)} (values : List valtype) :
    valuePairs (pairValues pairs ++ values) = pairs ++ valuePairs values := by
  induction pairs with
  | nil => rfl
  | cons pair pairs ih =>
    have hcons : pairValues (pair :: pairs) ++ values =
        pair.1 :: pair.2 :: (pairValues pairs ++ values) := by
      rfl
    rw [hcons, valuePairs, ih]
    rfl

theorem pushPairs_eq (pairs : List (valtype × valtype)) :
    pushPairs pairs = PushAll (pairValues pairs) := by
  rw [pushPairs, PushAll, pairValues, flatMap_assoc]
  apply flatMap_congr
  simp

/-- The pairs that a merge gives to the first keys: each key has the next pair that is valid under
it. The pairs are read two by two from the values that are not empty. -/
def mergedPairs (C : SignatureCrypto) (txTo : CTransaction) (nIn : ℕ) (R : CScript) (m : ℕ)
    (keys : List (valtype × valtype)) (sigs1 sigs2 : Stack) : List (valtype × valtype) :=
  (firstFits (hybridVerifies C txTo nIn R) (valuePairs (nonEmptyValues sigs1 sigs2)) keys).take m

/-- What `Solver` says about a hybrid multisig script. -/
def hybridSolutions (m : ℕ) (keys : List (valtype × valtype)) : List valtype :=
  [UInt8.ofNat m] :: (pairValues keys ++ [[UInt8.ofNat keys.length]])

/-- What is assumed of the pairs of two stacks: none is valid under two different keys, and none
that is valid stands in the script that it signs. -/
structure PairsUnambiguous (C : SignatureCrypto) (txTo : CTransaction) (nIn : ℕ) (R : CScript)
    (keys : List (valtype × valtype)) (sigs1 sigs2 : Stack) : Prop where
  oneKey : ∀ sigPair ∈ valuePairs (nonEmptyValues sigs1 sigs2), ∀ key ∈ keys, ∀ key' ∈ keys,
    hybridVerifies C txTo nIn R sigPair key = true →
    hybridVerifies C txTo nIn R sigPair key' = true → key = key'
  outside : ∀ sigPair ∈ valuePairs (nonEmptyValues sigs1 sigs2), ∀ key ∈ keys,
    hybridVerifies C txTo nIn R sigPair key = true →
    FindAndDelete R (pushData sigPair.1) = R ∧ FindAndDelete R (pushData sigPair.2) = R

theorem toNat_ofNat_small {n : ℕ} (h : n ≤ 16) : (UInt8.ofNat n).toNat = n :=
  UInt8.toNat_ofNat_of_lt' (by simp [UInt8.size]; omega)

variable {keys : List (valtype × valtype)} {m : ℕ}

/-- What `CombineHybridMultisig` makes of a hybrid multisig. -/
theorem CombineHybridMultisig_spec (h : HybridScript R m keys) (sigs1 sigs2 : Stack)
    (hsound : CacheSound C checks) (honly : PairsUnambiguous C txTo nIn R keys sigs1 sigs2) :
    (CombineHybridMultisig C txTo nIn R (hybridSolutions m keys) sigs1 sigs2 checks).1 =
        PushAll (pairValues (mergedPairs C txTo nIn R m keys sigs1 sigs2)) ∧
      CacheSound C
        (CombineHybridMultisig C txTo nIn R (hybridSolutions m keys) sigs1 sigs2 checks).2 := by
  have hpos := h.pos
  have hle := h.le
  have hsmall := h.small
  have hlength : (hybridSolutions m keys).length = 2 + keys.length * 2 := by
    rw [hybridSolutions, length_cons, length_append, length_pairValues, length_singleton]
    omega
  have hlast : frontByte ((hybridSolutions m keys).getLastD []) = keys.length := by
    rw [hybridSolutions, ← cons_append, getLastD_concat]
    exact toNat_ofNat_small hsmall
  have hfirst : frontByte ((hybridSolutions m keys).headD []) = m :=
    toNat_ofNat_small (by omega)
  have hkeys : valuePairs ((hybridSolutions m keys).drop 1) = keys := by
    rw [hybridSolutions, drop_one, tail_cons, valuePairs_append]
    exact append_nil keys
  obtain ⟨hfold, hkept⟩ := foldl_placePair txTo nIn R hsound
    (valuePairs (nonEmptyValues sigs1 sigs2)) (keys.map fun pubPair => (pubPair, none))
  rw [foldl_placeFirst honly.oneKey] at hfold
  rw [CombineHybridMultisig, if_neg (by rw [hlength]; simp [hybridSolutions]; omega), hfirst, hkeys]
  dsimp only
  rw [if_neg (by omega), if_neg (by omega)]
  refine ⟨?_, hkept⟩
  rw [hfold, pushPairs_eq]
  rfl

theorem dropSignatures_outside {sigs : List valtype}
    (h : ∀ sig ∈ sigs, FindAndDelete R (pushData sig) = R) : dropSignatures R sigs = R := by
  unfold dropSignatures
  induction sigs with
  | nil => rfl
  | cons sig sigs ih =>
    rw [foldl_cons, h sig mem_cons_self]
    exact ih fun sig' hsig' => h sig' (mem_cons_of_mem _ hsig')

theorem mem_mergedPairs {m : ℕ} {keys : List (valtype × valtype)} {sigs1 sigs2 : Stack}
    {sigPair : valtype × valtype} (h : sigPair ∈ mergedPairs C txTo nIn R m keys sigs1 sigs2) :
    sigPair ∈ valuePairs (nonEmptyValues sigs1 sigs2) ∧
      ∃ key ∈ keys, hybridVerifies C txTo nIn R sigPair key = true :=
  mem_of_mem_firstFits (mem_of_mem_take h)

variable (C txTo nIn R) in
theorem length_mergedPairs_le (m : ℕ) (keys : List (valtype × valtype)) (sigs1 sigs2 : Stack) :
    (mergedPairs C txTo nIn R m keys sigs1 sigs2).length ≤ m := length_take_le _ _

theorem hybridAccepts_merged_iff (h : HybridScript R m keys) {sigs1 sigs2 : Stack}
    (honly : PairsUnambiguous C txTo nIn R keys sigs1 sigs2) :
    HybridAccepts C txTo nIn R m keys
        (pairValues (mergedPairs C txTo nIn R m keys sigs1 sigs2)).reverse ↔
      (mergedPairs C txTo nIn R m keys sigs1 sigs2).length = m ∧
        ∃ sigHashType, ∀ sigPair ∈ mergedPairs C txTo nIn R m keys sigs1 sigs2,
          backByte sigPair.1 = sigHashType := by
  have hmerged := @mem_mergedPairs C txTo nIn R m keys sigs1 sigs2
  have hlength := length_mergedPairs_le C txTo nIn R m keys sigs1 sigs2
  have hmatch : OrderedMatch (hybridVerifies C txTo nIn R)
      (mergedPairs C txTo nIn R m keys sigs1 sigs2) keys :=
    (orderedMatch_firstFits _ _).take _ m
  have hpos := h.pos
  rw [reverse_pairValues]
  generalize mergedPairs C txTo nIn R m keys sigs1 sigs2 = merged at hmerged hlength hmatch
  constructor
  · intro haccepts
    obtain ⟨sigs, rest, sigHashType, preimage, hsplit, hcount, -, honeType, -, -⟩ := haccepts
    have hlengths := congrArg length hsplit
    rw [length_append, length_flattenPairs, length_flattenPairs, length_reverse] at hlengths
    have hrest : rest = [] := eq_nil_of_length_eq_zero (by omega)
    rw [hrest, append_nil] at hsplit
    have hsigs := flattenPairs_injective hsplit
    refine ⟨by omega, sigHashType, ?_⟩
    intro sigPair hmem
    rw [← mem_reverse, hsigs] at hmem
    exact (honeType sigPair hmem).1
  · intro hmerge
    obtain ⟨hcount, sigHashType, honeType⟩ := hmerge
    have hvalid : ∀ sigPair ∈ merged, ∃ key ∈ keys,
        ValidPair C txTo nIn 0 R sigPair key := by
      intro sigPair hmem
      obtain ⟨-, key, hkey, hverifies⟩ := hmerged hmem
      exact ⟨key, hkey, ((hybridVerifies_iff _ _).mp hverifies).2⟩
    have hcode : dropSignatures R
        (merged.reverse.flatMap fun sigPair => [sigPair.1, sigPair.2]) = R := by
      apply dropSignatures_outside
      intro sig hsig
      obtain ⟨sigPair, hmem, hsig⟩ := mem_flatMap.mp hsig
      obtain ⟨hpair, key, hkey, hverifies⟩ := hmerged (mem_reverse.mp hmem)
      obtain ⟨hec, hml⟩ := honly.outside sigPair hpair key hkey hverifies
      rcases mem_pair.mp hsig with rfl | rfl
      · exact hec
      · exact hml
    obtain ⟨first, hfirst⟩ : ∃ sigPair, sigPair ∈ merged :=
      exists_mem_of_length_pos (by omega)
    obtain ⟨_, _, _, _, _, preimage, hpreimage, _⟩ := hvalid first hfirst
    rw [honeType first hfirst] at hpreimage
    refine ⟨merged.reverse, [], sigHashType, preimage, (append_nil _).symm, ?_, ?_, ?_, ?_, ?_⟩
    · rw [length_reverse]
      exact hcount
    · intro sigPair hmem
      obtain ⟨key, -, hpair⟩ := hvalid sigPair (mem_reverse.mp hmem)
      exact hpair.1
    · intro sigPair hmem
      obtain ⟨key, -, hpair⟩ := hvalid sigPair (mem_reverse.mp hmem)
      have htype := honeType sigPair (mem_reverse.mp hmem)
      exact ⟨htype, hpair.2.1.trans htype⟩
    · rw [hcode]
      exact hpreimage
    · apply OrderedMatch.reverse
      apply hmatch.mono
      intro sigPair hmem key _ hverifies
      obtain ⟨-, -, -, -, preimage', hpreimage', hpair⟩ := (hybridVerifies_iff _ _).mp hverifies
      rw [honeType sigPair hmem, hpreimage] at hpreimage'
      cases hpreimage'
      exact hpair

end Hybrid

/-! ## The matching of legacy signatures -/

theorem PushAll_replicate (n : ℕ) : PushAll (replicate n []) = replicate n OP_0 := by
  induction n with
  | zero => rfl
  | succ n ih =>
    rw [replicate_succ, replicate_succ, ← ih]
    rfl

theorem multisig_pushes (sigs : List valtype) (n : ℕ) :
    [OP_0] ++ PushAll sigs ++ replicate n OP_0 =
      PushAll ([[]] ++ sigs ++ replicate n []) := by
  rw [PushAll_append, PushAll_replicate]
  rfl

section Legacy

variable {C : SignatureCrypto} {txTo : CTransaction} {nIn : ℕ} {R : CScript}
  {checks : SignatureChecks}

variable (txTo nIn R) in
theorem findPubKey_spec (hsound : CacheSound C checks) (sig : valtype) (pubkeys : List valtype)
    (sigsMap : List (valtype × valtype))
    (honly : ∀ key ∈ pubkeys, ∀ key' ∈ pubkeys, sigVerifies C R txTo nIn sig key = true →
      sigVerifies C R txTo nIn sig key' = true → key = key') :
    CacheSound C (findPubKey C txTo nIn R sig pubkeys sigsMap checks).2 ∧ ∀ key,
      (findPubKey C txTo nIn R sig pubkeys sigsMap checks).1.lookup key =
        if key ∈ pubkeys ∧ sigsMap.lookup key = none ∧ sigVerifies C R txTo nIn sig key = true then
          some sig
        else sigsMap.lookup key := by
  induction pubkeys generalizing checks with
  | nil =>
    refine ⟨hsound, ?_⟩
    intro key
    rfl
  | cons pubkey pubkeys ih =>
    have honly' : ∀ key ∈ pubkeys, ∀ key' ∈ pubkeys, sigVerifies C R txTo nIn sig key = true →
        sigVerifies C R txTo nIn sig key' = true → key = key' := fun k hk k' hk' =>
      honly k (mem_cons_of_mem _ hk) k' (mem_cons_of_mem _ hk')
    have hskip (hnot : ¬ (sigsMap.lookup pubkey = none ∧
        sigVerifies C R txTo nIn sig pubkey = true)) (key : valtype) :
        (key ∈ pubkeys ∧ sigsMap.lookup key = none ∧ sigVerifies C R txTo nIn sig key = true) ↔
        (key ∈ pubkey :: pubkeys ∧ sigsMap.lookup key = none ∧
          sigVerifies C R txTo nIn sig key = true) := by
      constructor
      · intro h
        exact ⟨mem_cons_of_mem _ h.1, h.2⟩
      · intro h
        rcases mem_cons.mp h.1 with rfl | hmem
        · exact absurd h.2 hnot
        · exact ⟨hmem, h.2⟩
    unfold findPubKey
    cases hfound : sigsMap.lookup pubkey with
    | some found =>
      obtain ⟨hkept, hlookup⟩ := ih hsound honly'
      rw [if_pos Option.isSome_some]
      refine ⟨hkept, ?_⟩
      intro key
      rw [hlookup]
      simp only [hskip (fun hnone => absurd (hfound.symm.trans hnone.1) (by simp)) key]
    | none =>
      have hvalid := CheckSig_iff txTo nIn hsound R sig pubkey
      have hkept := CheckSig_sound R txTo nIn 0 hsound sig pubkey none
      rw [if_neg (by simp)]
      generalize CheckSig C sig pubkey R txTo nIn 0 none checks = result at hvalid hkept
      obtain ⟨fMatch, checks₁⟩ := result
      cases fMatch with
      | true =>
        refine ⟨hkept, ?_⟩
        intro key
        rw [lookup_cons]
        by_cases hkey : key = pubkey
        · subst hkey
          rw [if_pos ⟨mem_cons_self, hfound, hvalid.symm⟩]
          simp
        · have hnot : ¬ (key ∈ pubkey :: pubkeys ∧ sigsMap.lookup key = none ∧
              sigVerifies C R txTo nIn sig key = true) := fun h =>
            hkey (honly key h.1 pubkey mem_cons_self h.2.2 hvalid.symm)
          have hother : (key == pubkey) = false := beq_false_of_ne hkey
          rw [if_neg hnot, hother]
      | false =>
        obtain ⟨hkept', hlookup⟩ := ih hkept honly'
        refine ⟨hkept', ?_⟩
        intro key
        rw [hlookup]
        simp only [hskip (fun hboth => absurd (hvalid.trans hboth.2) (by simp)) key]

variable (txTo nIn R) in
theorem foldl_findPubKey (hsound : CacheSound C checks) (sigs pubkeys : List valtype)
    (sigsMap : List (valtype × valtype))
    (honly : ∀ sig ∈ sigs, ∀ key ∈ pubkeys, ∀ key' ∈ pubkeys,
      sigVerifies C R txTo nIn sig key = true → sigVerifies C R txTo nIn sig key' = true →
      key = key') :
    CacheSound C (sigs.foldl (fun (state : List (valtype × valtype) × SignatureChecks) sig =>
        findPubKey C txTo nIn R sig pubkeys state.1 state.2) (sigsMap, checks)).2 ∧
    ∀ key ∈ pubkeys, (sigs.foldl (fun (state : List (valtype × valtype) × SignatureChecks) sig =>
        findPubKey C txTo nIn R sig pubkeys state.1 state.2) (sigsMap, checks)).1.lookup key =
      (sigsMap.lookup key).or (sigs.find? fun sig => sigVerifies C R txTo nIn sig key) := by
  induction sigs generalizing sigsMap checks with
  | nil =>
    refine ⟨hsound, ?_⟩
    intro key _
    rw [find?_nil, Option.or_none]
    rfl
  | cons sig sigs ih =>
    obtain ⟨hkept, hlookup⟩ := findPubKey_spec txTo nIn R hsound sig pubkeys
      sigsMap (honly sig mem_cons_self)
    obtain ⟨hkept', hrest⟩ := ih hkept (findPubKey C txTo nIn R sig pubkeys sigsMap checks).1
      fun sig' hsig' => honly sig' (mem_cons_of_mem _ hsig')
    refine ⟨hkept', ?_⟩
    intro key hkey
    have hall := hrest key hkey
    rw [hlookup key] at hall
    refine hall.trans ?_
    cases hfound : sigsMap.lookup key with
    | some found => rw [if_neg (by simp)]; simp
    | none =>
      by_cases hvalid : sigVerifies C R txTo nIn sig key = true
      · rw [if_pos ⟨hkey, rfl, hvalid⟩, find?_cons_of_pos (p := fun sig =>
          sigVerifies C R txTo nIn sig key) hvalid]
        simp
      · rw [if_neg (fun h => hvalid h.2.2), find?_cons_of_neg (p := fun sig =>
          sigVerifies C R txTo nIn sig key) hvalid]

def mergedSigs (C : SignatureCrypto) (txTo : CTransaction) (nIn : ℕ) (R : CScript) (m : ℕ)
    (keys : List valtype) (sigs1 sigs2 : Stack) : List valtype :=
  (keys.filterMap fun key => (sigSet (nonEmptyValues sigs1 sigs2)).find? fun sig =>
    sigVerifies C R txTo nIn sig key).take m

/-- What `Solver` says about a legacy multisig script. -/
def legacySolutions (m : ℕ) (keys : List valtype) : List valtype :=
  [UInt8.ofNat m] :: (keys ++ [[UInt8.ofNat keys.length]])

/-- What is assumed of the signatures on two stacks: none is valid under two different keys, and
none that is valid stands in the script that it signs. -/
structure SigsUnambiguous (C : SignatureCrypto) (txTo : CTransaction) (nIn : ℕ) (R : CScript)
    (keys : List valtype) (sigs1 sigs2 : Stack) : Prop where
  oneKey : ∀ sig ∈ nonEmptyValues sigs1 sigs2, ∀ key ∈ keys, ∀ key' ∈ keys,
    sigVerifies C R txTo nIn sig key = true → sigVerifies C R txTo nIn sig key' = true → key = key'
  outside : ∀ sig ∈ nonEmptyValues sigs1 sigs2, ∀ key ∈ keys,
    sigVerifies C R txTo nIn sig key = true → FindAndDelete R (pushData sig) = R

theorem mem_sigSet {values : List valtype} {sig : valtype} :
    sig ∈ sigSet values ↔ sig ∈ values := by
  rw [sigSet, mem_insertionSort, mem_dedup]

variable {keys : List valtype} {m : ℕ}

/-- What `CombineMultisig` makes of a legacy multisig. -/
theorem CombineMultisig_spec (h : LegacyScript R m keys) (sigs1 sigs2 : Stack)
    (hsound : CacheSound C checks) (honly : SigsUnambiguous C txTo nIn R keys sigs1 sigs2) :
    (CombineMultisig C txTo nIn R (legacySolutions m keys) sigs1 sigs2 checks).1 =
        PushAll ([[]] ++ mergedSigs C txTo nIn R m keys sigs1 sigs2 ++
          replicate (m - (mergedSigs C txTo nIn R m keys sigs1 sigs2).length) []) ∧
      CacheSound C
        (CombineMultisig C txTo nIn R (legacySolutions m keys) sigs1 sigs2 checks).2 := by
  have hsmall := h.small
  have hle := h.le
  have hfirst : frontByte ((legacySolutions m keys).headD []) = m :=
    toNat_ofNat_small (by omega)
  have hkeys : ((legacySolutions m keys).drop 1).take ((legacySolutions m keys).length - 2) =
      keys := by
    rw [legacySolutions, drop_one]
    apply take_left'
    rw [length_cons, length_append, length_singleton]
    omega
  obtain ⟨hkept, hlookup⟩ := foldl_findPubKey txTo nIn R hsound
    (sigSet (nonEmptyValues sigs1 sigs2)) keys []
    fun sig hsig => honly.oneKey sig (mem_sigSet.mp hsig)
  rw [CombineMultisig, hfirst, hkeys]
  refine ⟨?_, hkept⟩
  have hmap : (keys.filterMap fun pubkey => ((sigSet (nonEmptyValues sigs1 sigs2)).foldl
      (fun (state : List (valtype × valtype) × SignatureChecks) sig =>
        findPubKey C txTo nIn R sig keys state.1 state.2) ([], checks)).1.lookup pubkey) =
      keys.filterMap fun key => (sigSet (nonEmptyValues sigs1 sigs2)).find? fun sig =>
        sigVerifies C R txTo nIn sig key := by
    apply filterMap_congr
    intro key hkey
    rw [hlookup key hkey, lookup_nil, Option.none_or]
  dsimp only
  rw [hmap]
  exact multisig_pushes _ _

theorem mem_mergedSigs {m : ℕ} {keys : List valtype} {sigs1 sigs2 : Stack} {sig : valtype}
    (h : sig ∈ mergedSigs C txTo nIn R m keys sigs1 sigs2) :
    sig ∈ nonEmptyValues sigs1 sigs2 ∧ ∃ key ∈ keys, sigVerifies C R txTo nIn sig key = true := by
  obtain ⟨key, hkey, hfound⟩ := mem_filterMap.mp (mem_of_mem_take h)
  exact ⟨mem_sigSet.mp (mem_of_find?_eq_some hfound), key, hkey,
    find?_some (p := fun sig => sigVerifies C R txTo nIn sig key) hfound⟩

theorem forall₂_filterMap {α β : Type} {p : α → β → Prop} {f : β → Option α}
    (hf : ∀ b a, f b = some a → p a b) (bs : List β) :
    ∃ cs, cs.Sublist bs ∧ Forall₂ p (bs.filterMap f) cs := by
  induction bs with
  | nil => exact ⟨[], Sublist.slnil, Forall₂.nil⟩
  | cons b bs ih =>
    obtain ⟨cs, hsub, hall⟩ := ih
    cases hfound : f b with
    | none => exact ⟨cs, hsub.cons b, by rw [filterMap_cons, hfound]; exact hall⟩
    | some a =>
      refine ⟨b :: cs, hsub.cons_cons b, ?_⟩
      rw [filterMap_cons, hfound]
      exact Forall₂.cons (hf b a hfound) hall

variable (C txTo nIn R) in
theorem orderedMatch_mergedSigs (m : ℕ) (keys : List valtype) (sigs1 sigs2 : Stack) :
    OrderedMatch (sigVerifies C R txTo nIn) (mergedSigs C txTo nIn R m keys sigs1 sigs2) keys := by
  apply OrderedMatch.take
  rw [orderedMatch_iff_sublist]
  apply forall₂_filterMap
  intro key sig hfound
  exact find?_some (p := fun sig => sigVerifies C R txTo nIn sig key) hfound

theorem not_sigVerifies_nil (key : valtype) : ¬ sigVerifies C R txTo nIn [] key = true := by
  unfold sigVerifies ecVerifies
  simp

theorem legacyAccepts_merged_iff {sigs1 sigs2 : Stack}
    (honly : SigsUnambiguous C txTo nIn R keys sigs1 sigs2) :
    LegacyAccepts C txTo nIn R m keys
        ([[]] ++ mergedSigs C txTo nIn R m keys sigs1 sigs2 ++
          replicate (m - (mergedSigs C txTo nIn R m keys sigs1 sigs2).length) []).reverse ↔
      (mergedSigs C txTo nIn R m keys sigs1 sigs2).length = m := by
  have hmerged := @mem_mergedSigs C txTo nIn R m keys sigs1 sigs2
  have hlength : (mergedSigs C txTo nIn R m keys sigs1 sigs2).length ≤ m := length_take_le _ _
  have hmatch := orderedMatch_mergedSigs C txTo nIn R m keys sigs1 sigs2
  generalize mergedSigs C txTo nIn R m keys sigs1 sigs2 = merged at hmerged hlength hmatch
  have hstack : ([[]] ++ merged ++ replicate (m - merged.length) []).reverse =
      replicate (m - merged.length) [] ++ merged.reverse ++ [[]] := by
    rw [reverse_append, reverse_append, reverse_replicate, append_assoc]
    rfl
  have htop : (replicate (m - merged.length) [] ++ merged.reverse ++ [[]]).take m =
      replicate (m - merged.length) [] ++ merged.reverse := by
    apply take_left'
    rw [length_append, length_replicate, length_reverse]
    omega
  rw [LegacyAccepts, hstack, htop]
  constructor
  · intro haccepts
    by_contra hfew
    obtain ⟨f, hf⟩ := haccepts.2
    have hcount : 0 < m - merged.length := by omega
    have hzero : 0 < (replicate (m - merged.length) ([] : valtype) ++ merged.reverse).length := by
      rw [length_append, length_replicate]
      omega
    have hempty := hf ⟨0, hzero⟩
    rw [get_eq_getElem, getElem_append_left (by simpa using hcount), getElem_replicate] at hempty
    exact not_sigVerifies_nil _ hempty
  · intro hcount
    have hnone : m - merged.length = 0 := by omega
    have hcode : dropSignatures R merged.reverse = R := by
      apply dropSignatures_outside
      intro sig hsig
      obtain ⟨hmem, key, hkey, hverifies⟩ := hmerged (mem_reverse.mp hsig)
      exact honly.outside sig hmem key hkey hverifies
    rw [hnone, replicate_zero, nil_append, hcode]
    refine ⟨?_, hmatch.reverse⟩
    rw [length_append, length_reverse, length_singleton, hcount]

end Legacy

/-! ## Spending a script or its hash -/

/-- How an output pays to a script. -/
inductive SpentForm where
  | bare
  | scriptHash

namespace SpentForm

def scriptPubKey (D : Digests) (R : CScript) : SpentForm → CScript
  | bare => R
  | scriptHash => payToScriptHash D R

/-- What a spend pushes after the signatures. -/
def tail (R : CScript) : SpentForm → List valtype
  | bare => []
  | scriptHash => [R]

/-- The part of a stack that the script itself runs on. -/
def signatures (stack : Stack) : SpentForm → Stack
  | bare => stack
  | scriptHash => stack.drop 1

end SpentForm

section Spending

variable {C : SignatureCrypto} {txTo : CTransaction} {nIn : ℕ} {R : CScript}
  {checks : SignatureChecks}

variable (C txTo nIn checks) in
theorem spends_pushes_iff (form : SpentForm) (hplain : IsPayToScriptHash R = false)
    {values : List valtype} (hfew : values.length ≤ 900) :
    (VerifyScript C txTo nIn 0 (PushAll (values ++ form.tail R))
        (form.scriptPubKey C.toDigests R) true checks).1 = true ↔
      Pushable (values ++ form.tail R) ∧ EvalTrue C txTo nIn values.reverse R checks := by
  cases form with
  | bare =>
    rw [SpentForm.tail, SpentForm.scriptPubKey, append_nil,
      verifyScript_PushAll_plain R values hplain]
    exact ⟨fun h => ⟨h.1, h.2.2⟩, fun h => ⟨h.1, by omega, h.2⟩⟩
  | scriptHash =>
    rw [SpentForm.tail, SpentForm.scriptPubKey, verifyScript_PushAll_scriptHash R values R]
    exact ⟨fun h => ⟨h.1, h.2.2.2⟩, fun h => ⟨h.1, by omega, rfl, h.2⟩⟩

theorem solverOut_of_Solver {out : txnouttype × List valtype} (h : Solver R = some out) :
    solverOut R = out := by
  rw [solverOut, h]

/-! ## Two scriptSigs -/

variable (C txTo nIn) in
theorem combineStacks_pushes (R : CScript) (out : txnouttype × List valtype) (sigs1 sigs2 : Stack)
    (checks : SignatureChecks) :
    ∃ values, (combineStacks C txTo nIn R out sigs1 sigs2 checks).1 = PushAll values := by
  have hplain (out : txnouttype × List valtype) (R : CScript) (sigs1 sigs2 : Stack)
      (checks : SignatureChecks) :
      ∃ values, (combinePlain C txTo nIn R out sigs1 sigs2 checks).1 = PushAll values := by
    unfold combinePlain
    split
    any_goals exact ⟨_, rfl⟩
    · exact ⟨_, multisig_pushes _ _⟩
    · unfold CombineHybridMultisig
      split_ifs
      · exact ⟨[], rfl⟩
      · dsimp only
        split_ifs
        · exact ⟨[], rfl⟩
        · exact ⟨[], rfl⟩
        · exact ⟨_, pushPairs_eq _⟩
    · exact ⟨[], rfl⟩
  induction sigs1 generalizing R out sigs2 checks with
  | nil =>
    unfold combineStacks
    by_cases hhash : out.1 = TX_SCRIPTHASH
    · rw [if_pos hhash]
      exact ⟨_, rfl⟩
    · rw [if_neg hhash]
      exact hplain _ _ _ _ _
  | cons spk rest1 ih =>
    unfold combineStacks
    by_cases hhash : out.1 = TX_SCRIPTHASH
    · rw [if_pos hhash]
      dsimp only
      by_cases hspk : spk = []
      · rw [if_pos hspk]
        exact ⟨_, rfl⟩
      · rw [if_neg hspk]
        cases sigs2 with
        | nil => exact ⟨_, rfl⟩
        | cons last rest2 =>
          dsimp only
          by_cases hlast : last = []
          · rw [if_pos hlast]
            exact ⟨_, rfl⟩
          · rw [if_neg hlast]
            obtain ⟨values, hvalues⟩ := ih spk (solverOut spk) rest2 checks
            refine ⟨values ++ [spk], ?_⟩
            rw [PushAll_append, ← hvalues]
            simp [PushAll]
    · rw [if_neg hhash]
      exact hplain _ _ _ _ _

end Spending

/-- Two `scriptSig`s that are merged for an input, with the signature cache before. -/
structure Merge where
  txTo : CTransaction
  nIn : ℕ
  scriptSig1 : CScript
  scriptSig2 : CScript
  checks : SignatureChecks

namespace Merge

variable (C : SignatureCrypto) (M : Merge)

/-- The stack that is taken for the first `scriptSig`. -/
def stack1 : Stack := (evalStack C M.scriptSig1 M.checks).1

/-- The stack that is taken for the second `scriptSig`. -/
def stack2 : Stack := (evalStack C M.scriptSig2 (evalStack C M.scriptSig1 M.checks).2).1

def checks2 : SignatureChecks := (evalStack C M.scriptSig2 (evalStack C M.scriptSig1 M.checks).2).2

variable (scriptPubKey : CScript)

def merged : CScript × SignatureChecks :=
  CombineSignatures C M.txTo M.nIn scriptPubKey M.scriptSig1 M.scriptSig2 M.checks

/-- `VerifyScript` as it is called for an input of a transaction. -/
def Spends (scriptPubKey scriptSig : CScript) (checks : SignatureChecks) : Prop :=
  (VerifyScript C M.txTo M.nIn 0 scriptSig scriptPubKey true checks).1 = true

/-- One of the two, or a `scriptSig` that is composed of their signatures, spends the output. -/
def Spendable (Composed : CScript → Prop) : Prop :=
  ∃ scriptSig, (scriptSig = M.scriptSig1 ∨ scriptSig = M.scriptSig2 ∨ Composed scriptSig) ∧
    M.Spends C scriptPubKey scriptSig M.checks

def Keeps (Composed : CScript → Prop) : Prop :=
  M.Spendable C scriptPubKey Composed →
    M.Spends C scriptPubKey (M.merged C scriptPubKey).1 (M.merged C scriptPubKey).2

/-- The condition under which the merged `scriptSig` spends, given the one on the signatures
alone. For a script hash both stacks have to end in the script; where one of them ends in nothing,
the other one has to spend as it is. -/
def MergeOk (R : CScript) (ok : Stack → Stack → Prop) : SpentForm → Prop
  | .bare => ok (M.stack1 C) (M.stack2 C)
  | .scriptHash =>
    if (M.stack1 C).headD [] = [] then
      M.Spends C (payToScriptHash C.toDigests R) (PushAll (M.stack2 C).reverse) (M.checks2 C)
    else if (M.stack2 C).headD [] = [] then
      M.Spends C (payToScriptHash C.toDigests R) (PushAll (M.stack1 C).reverse) (M.checks2 C)
    else (M.stack1 C).headD [] = R ∧ ok ((M.stack1 C).drop 1) ((M.stack2 C).drop 1)

theorem checks2_sound (hsound : CacheSound C M.checks) : CacheSound C (M.checks2 C) := by
  have hone (scriptSig : CScript) {checks : SignatureChecks} (h : CacheSound C checks) :
      CacheSound C (evalStack C scriptSig checks).2 := by
    have hrun := EvalScript_sound ⟨1, [], [], 0⟩ 0 0 h [] scriptSig
    unfold evalStack leftover
    cases hresult : EvalScript C ⟨1, [], [], 0⟩ 0 0 [] scriptSig checks with
    | error failure =>
      rw [hresult] at hrun
      exact hrun
    | ok left =>
      rw [hresult] at hrun
      exact hrun
  exact hone _ (hone _ hsound)

theorem merged_eq :
    M.merged C scriptPubKey = combineStacks C M.txTo M.nIn scriptPubKey (solverOut scriptPubKey)
      (M.stack1 C) (M.stack2 C) (M.checks2 C) := rfl

variable {C M} {R : CScript}

variable {out : txnouttype × List valtype}

theorem combineStacks_plain (hout : out.1 ≠ TX_SCRIPTHASH) (txTo : CTransaction) (nIn : ℕ)
    (R : CScript) (sigs1 sigs2 : Stack) (checks : SignatureChecks) :
    combineStacks C txTo nIn R out sigs1 sigs2 checks =
      combinePlain C txTo nIn R out sigs1 sigs2 checks := by
  unfold combineStacks
  rw [if_neg hout]

variable {sigs1 sigs2 : Stack} {m : ℕ}

theorem combineStacks_noScript (hout : out.1 = TX_SCRIPTHASH) (txTo : CTransaction) (nIn : ℕ)
    (R : CScript) (checks : SignatureChecks) :
    (sigs1.headD [] = [] →
      combineStacks C txTo nIn R out sigs1 sigs2 checks = (PushAll sigs2.reverse, checks)) ∧
    (sigs1.headD [] ≠ [] → sigs2.headD [] = [] →
      combineStacks C txTo nIn R out sigs1 sigs2 checks = (PushAll sigs1.reverse, checks)) := by
  constructor
  · intro hfirst
    cases sigs1 with
    | nil =>
      rw [combineStacks, if_pos hout]
    | cons spk rest1 =>
      have hspk : spk = [] := hfirst
      unfold combineStacks
      rw [if_pos hout]
      dsimp only
      rw [if_pos hspk]
  · intro hfirst hsecond
    cases sigs1 with
    | nil => exact absurd rfl hfirst
    | cons spk rest1 =>
      have hspk : spk ≠ [] := hfirst
      unfold combineStacks
      rw [if_pos hout]
      dsimp only
      rw [if_neg hspk]
      cases sigs2 with
      | nil => rfl
      | cons last rest2 =>
        have hlast : last = [] := hsecond
        dsimp only
        rw [if_pos hlast]

theorem combineStacks_scripts (hout : out.1 = TX_SCRIPTHASH) (txTo : CTransaction) (nIn : ℕ)
    (R : CScript) (checks : SignatureChecks) (hfirst : sigs1.headD [] ≠ [])
    (hsecond : sigs2.headD [] ≠ []) :
    combineStacks C txTo nIn R out sigs1 sigs2 checks =
      ((combineStacks C txTo nIn (sigs1.headD []) (solverOut (sigs1.headD [])) (sigs1.drop 1)
          (sigs2.drop 1) checks).1 ++ pushData (sigs1.headD []),
        (combineStacks C txTo nIn (sigs1.headD []) (solverOut (sigs1.headD [])) (sigs1.drop 1)
          (sigs2.drop 1) checks).2) := by
  cases sigs1 with
  | nil => exact absurd rfl hfirst
  | cons spk rest1 =>
    cases sigs2 with
    | nil => exact absurd rfl hsecond
    | cons last rest2 =>
      have hspk : spk ≠ [] := hfirst
      have hlast : last ≠ [] := hsecond
      conv_lhs =>
        rw [combineStacks, if_pos hout]
        dsimp only
        rw [if_neg hspk, if_neg hlast]
      rfl

/-- The merged `scriptSig` spends iff `MergeOk` holds, when `ok` says when the merged signatures
make the script itself true. -/
theorem merged_spends_iff (form : SpentForm) {ok : Stack → Stack → Prop}
    (hsolver : Solver R = some out) (hout : out.1 ≠ TX_SCRIPTHASH)
    (hplain : IsPayToScriptHash R = false)
    (hcollision : form = .scriptHash →
      C.Hash160 ((M.stack1 C).headD []) = C.Hash160 R → (M.stack1 C).headD [] = R)
    (hok : ∃ values checks, combinePlain C M.txTo M.nIn R out (form.signatures (M.stack1 C))
        (form.signatures (M.stack2 C)) (M.checks2 C) = (PushAll values, checks) ∧
      values.length ≤ 900 ∧ (Pushable (values ++ form.tail R) ∧
        EvalTrue C M.txTo M.nIn values.reverse R checks ↔
          ok (form.signatures (M.stack1 C)) (form.signatures (M.stack2 C)))) :
    M.Spends C (form.scriptPubKey C.toDigests R) (M.merged C (form.scriptPubKey C.toDigests R)).1
        (M.merged C (form.scriptPubKey C.toDigests R)).2 ↔ M.MergeOk C R ok form := by
  obtain ⟨values, checks, hvalues, hfew, hiff⟩ := hok
  have hspends := spends_pushes_iff C M.txTo M.nIn checks form hplain hfew
  rw [merged_eq]
  cases form with
  | bare =>
    have hmerged : combineStacks C M.txTo M.nIn R (solverOut R) (M.stack1 C) (M.stack2 C)
        (M.checks2 C) = (PushAll values, checks) := by
      rw [solverOut_of_Solver hsolver, combineStacks_plain hout]
      exact hvalues
    rw [SpentForm.tail, append_nil] at hspends hiff
    rw [SpentForm.scriptPubKey, hmerged]
    exact hspends.trans hiff
  | scriptHash =>
    rw [SpentForm.scriptPubKey]
    unfold MergeOk
    by_cases hfirst : (M.stack1 C).headD [] = []
    · rw [if_pos hfirst, (combineStacks_noScript rfl _ _ _ _).1 hfirst]
    · rw [if_neg hfirst]
      by_cases hsecond : (M.stack2 C).headD [] = []
      · rw [if_pos hsecond, (combineStacks_noScript rfl _ _ _ _).2 hfirst hsecond]
      · rw [if_neg hsecond, combineStacks_scripts rfl _ _ _ _ hfirst hsecond]
        by_cases hscript : (M.stack1 C).headD [] = R
        · have hmerged : combineStacks C M.txTo M.nIn R (solverOut R) ((M.stack1 C).drop 1)
              ((M.stack2 C).drop 1) (M.checks2 C) = (PushAll values, checks) := by
            rw [solverOut_of_Solver hsolver, combineStacks_plain hout]
            exact hvalues
          have htail : PushAll values ++ pushData R = PushAll (values ++ [R]) := by
            simp [PushAll]
          rw [hscript, hmerged]
          rw [htail]
          exact hspends.trans (hiff.trans (and_iff_right rfl).symm)
        · -- The script on top has another hash, so nothing below it helps.
          constructor
          · intro hwrong
            obtain ⟨below, hbelow⟩ := combineStacks_pushes C M.txTo M.nIn
              ((M.stack1 C).headD []) (solverOut ((M.stack1 C).headD [])) ((M.stack1 C).drop 1)
              ((M.stack2 C).drop 1) (M.checks2 C)
            have htail : PushAll below ++ pushData ((M.stack1 C).headD []) =
                PushAll (below ++ [(M.stack1 C).headD []]) := by
              simp [PushAll]
            rw [hbelow, htail] at hwrong
            exact absurd (hcollision rfl
              ((verifyScript_PushAll_scriptHash R below _).mp hwrong).2.2.1) hscript
          · intro hright
            exact absurd hright.1 hscript

/-! ## When the merge spends -/

variable (C M R)

def HybridOk (m : ℕ) (keys : List (valtype × valtype)) (form : SpentForm) (sigs1 sigs2 : Stack) :
    Prop :=
  (mergedPairs C M.txTo M.nIn R m keys sigs1 sigs2).length = m ∧
    (∃ sigHashType, ∀ sigPair ∈ mergedPairs C M.txTo M.nIn R m keys sigs1 sigs2,
      backByte sigPair.1 = sigHashType) ∧
    Pushable (pairValues (mergedPairs C M.txTo M.nIn R m keys sigs1 sigs2) ++ form.tail R)

/-- The first keys have signatures that fit into a script. -/
def LegacyOk (m : ℕ) (keys : List valtype) (form : SpentForm) (sigs1 sigs2 : Stack) : Prop :=
  (mergedSigs C M.txTo M.nIn R m keys sigs1 sigs2).length = m ∧
    Pushable ([[]] ++ mergedSigs C M.txTo M.nIn R m keys sigs1 sigs2 ++ form.tail R)

variable {C M R}

theorem merged_hybrid_iff (form : SpentForm) {keys : List (valtype × valtype)}
    (hsound : CacheSound C M.checks) (hscript : HybridScript R m keys)
    (hsolver : Solver R = some (TX_HYBRID_MULTISIG, hybridSolutions m keys))
    (hcollision : form = .scriptHash →
      C.Hash160 ((M.stack1 C).headD []) = C.Hash160 R → (M.stack1 C).headD [] = R)
    (honly : PairsUnambiguous C M.txTo M.nIn R keys (form.signatures (M.stack1 C))
      (form.signatures (M.stack2 C))) :
    M.Spends C (form.scriptPubKey C.toDigests R) (M.merged C (form.scriptPubKey C.toDigests R)).1
        (M.merged C (form.scriptPubKey C.toDigests R)).2 ↔
      M.MergeOk C R (M.HybridOk C R m keys form) form := by
  have hsmall := hscript.small
  have hle := hscript.le
  obtain ⟨hcombined, hkept⟩ := CombineHybridMultisig_spec hscript _ _ (M.checks2_sound C hsound)
    honly
  have hmerged := length_mergedPairs_le C M.txTo M.nIn R m keys
    (form.signatures (M.stack1 C)) (form.signatures (M.stack2 C))
  have hvalues := length_pairValues (mergedPairs C M.txTo M.nIn R m keys
    (form.signatures (M.stack1 C)) (form.signatures (M.stack2 C)))
  have hpair : combinePlain C M.txTo M.nIn R (TX_HYBRID_MULTISIG, hybridSolutions m keys)
      (form.signatures (M.stack1 C)) (form.signatures (M.stack2 C)) (M.checks2 C) =
      (PushAll (pairValues (mergedPairs C M.txTo M.nIn R m keys (form.signatures (M.stack1 C))
        (form.signatures (M.stack2 C)))), (CombineHybridMultisig C M.txTo M.nIn R
          (hybridSolutions m keys) (form.signatures (M.stack1 C)) (form.signatures (M.stack2 C))
          (M.checks2 C)).2) := Prod.ext hcombined rfl
  apply merged_spends_iff form hsolver (by simp) hscript.not_isPayToScriptHash hcollision
  refine ⟨_, _, hpair, by omega, ?_⟩
  rw [evalTrue_hybrid_iff hscript hkept, hybridAccepts_merged_iff hscript honly]
  constructor
  · intro h
    obtain ⟨hpushable, -, hcount, honeType⟩ := h
    exact ⟨hcount, honeType, hpushable⟩
  · intro h
    obtain ⟨hcount, honeType, hpushable⟩ := h
    refine ⟨hpushable, ?_, hcount, honeType⟩
    rw [length_reverse]
    omega

theorem merged_legacy_iff (form : SpentForm) {keys : List valtype} (hsound : CacheSound C M.checks)
    (hscript : LegacyScript R m keys)
    (hsolver : Solver R = some (TX_MULTISIG, legacySolutions m keys))
    (hcollision : form = .scriptHash →
      C.Hash160 ((M.stack1 C).headD []) = C.Hash160 R → (M.stack1 C).headD [] = R)
    (honly : SigsUnambiguous C M.txTo M.nIn R keys (form.signatures (M.stack1 C))
      (form.signatures (M.stack2 C))) :
    M.Spends C (form.scriptPubKey C.toDigests R) (M.merged C (form.scriptPubKey C.toDigests R)).1
        (M.merged C (form.scriptPubKey C.toDigests R)).2 ↔
      M.MergeOk C R (M.LegacyOk C R m keys form) form := by
  have hsmall := hscript.small
  have hle := hscript.le
  obtain ⟨hcombined, hkept⟩ := CombineMultisig_spec hscript _ _ (M.checks2_sound C hsound) honly
  have hmerged : (mergedSigs C M.txTo M.nIn R m keys (form.signatures (M.stack1 C))
      (form.signatures (M.stack2 C))).length ≤ m := length_take_le _ _
  apply merged_spends_iff form hsolver (by simp) hscript.not_isPayToScriptHash hcollision
  have hlength : ([[]] ++ mergedSigs C M.txTo M.nIn R m keys (form.signatures (M.stack1 C))
      (form.signatures (M.stack2 C)) ++ replicate (m - (mergedSigs C M.txTo M.nIn R m keys
        (form.signatures (M.stack1 C)) (form.signatures (M.stack2 C))).length) []).length =
      m + 1 := by
    rw [length_append, length_append, length_replicate, length_singleton]
    omega
  have hpair : combinePlain C M.txTo M.nIn R (TX_MULTISIG, legacySolutions m keys)
      (form.signatures (M.stack1 C)) (form.signatures (M.stack2 C)) (M.checks2 C) =
      (PushAll ([[]] ++ mergedSigs C M.txTo M.nIn R m keys (form.signatures (M.stack1 C))
        (form.signatures (M.stack2 C)) ++ replicate (m - (mergedSigs C M.txTo M.nIn R m keys
          (form.signatures (M.stack1 C)) (form.signatures (M.stack2 C))).length) []),
        (CombineMultisig C M.txTo M.nIn R (legacySolutions m keys) (form.signatures (M.stack1 C))
          (form.signatures (M.stack2 C)) (M.checks2 C)).2) := Prod.ext hcombined rfl
  refine ⟨_, _, hpair, by omega, ?_⟩
  rw [evalTrue_legacy_iff hscript hkept, legacyAccepts_merged_iff honly, length_reverse]
  constructor
  · intro h
    obtain ⟨hpushable, -, hcount⟩ := h
    rw [hcount, Nat.sub_self, replicate_zero, append_nil] at hpushable
    exact ⟨hcount, hpushable⟩
  · intro h
    obtain ⟨hcount, hpushable⟩ := h
    refine ⟨?_, by omega, hcount⟩
    rw [hcount, Nat.sub_self, replicate_zero, append_nil]
    exact hpushable

/-! ## ScriptSigs that are made of signatures -/

theorem evalTrue_of_spends (form : SpentForm) {txTo : CTransaction} {nIn : ℕ}
    {scriptSig : CScript} {checks : SignatureChecks} (checks₀ : SignatureChecks)
    (hplain : IsPayToScriptHash R = false) (hpush : IsPushOnly scriptSig = true)
    (hhead : form = .scriptHash → (evalStack C scriptSig checks₀).1.headD [] = R)
    (hspends : (VerifyScript C txTo nIn 0 scriptSig (form.scriptPubKey C.toDigests R) true
      checks).1 = true) :
    EvalTrue C txTo nIn (form.signatures (evalStack C scriptSig checks₀).1) R checks := by
  have hstack {stack : Stack} {checks' : SignatureChecks}
      (hrun : EvalScript C txTo nIn 0 [] scriptSig checks = .ok (stack, checks')) :
      (evalStack C scriptSig checks₀).1 = stack ∧ checks' = checks := by
    obtain ⟨hpushes, hlength, hheight, hsame⟩ := EvalScript_isPushOnly C txTo nIn 0 hpush hrun
    have hleft := EvalScript_pushes C ⟨1, [], [], 0⟩ 0 0 [] checks₀ hpushes hlength
      (by simpa using hheight)
    rw [reverse_reverse, append_nil] at hleft
    refine ⟨?_, hsame⟩
    rw [evalStack, hleft]
    rfl
  cases form with
  | bare =>
    obtain ⟨stack, checks', hrun, htrue⟩ := (verifyScript_plain_iff hplain).mp hspends
    obtain ⟨heq, rfl⟩ := hstack hrun
    rw [heq]
    exact htrue
  | scriptHash =>
    obtain ⟨-, v, rest, checks', hrun, -, -, htrue⟩ := (verifyScript_scriptHash_iff R).mp hspends
    obtain ⟨heq, rfl⟩ := hstack hrun
    have hv := hhead rfl
    rw [heq] at hv
    have hv' : v = R := hv
    subst hv'
    rw [heq]
    exact htrue

end Merge

end Phoenixcoin.Analysis
