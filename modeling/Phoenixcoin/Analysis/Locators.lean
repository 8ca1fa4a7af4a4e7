import Phoenixcoin.Analysis.TipAgreement
import Phoenixcoin.Program.Locator

/-!
# Locators find a close common block

The builder and the reader of a locator take the same steps: one block each up to the eleventh
entry, and from there twice as many each time. The first entry in the main chain of the reader is
less than twice as far from the tip of the sender as any common block, and its distance is the one
retraced.
-/

set_option autoImplicit false

namespace Phoenixcoin.Analysis

open Lib Program Model ChainState List Option

/-! ## The distances -/

def gap (k : ℕ) : ℕ := 2 ^ (k - 10)

def dist : ℕ → ℕ
  | 0 => 0
  | k + 1 => dist k + gap k

theorem gap_succ (k : ℕ) : gap (k + 1) = if k + 1 > 10 then gap k * 2 else gap k := by
  unfold gap
  split_ifs
  · rw [show k + 1 - 10 = k - 10 + 1 by omega, pow_succ]
  · rw [show k + 1 - 10 = k - 10 by omega]

theorem dist_cases (k : ℕ) :
    k ≤ 10 ∧ gap k = 1 ∧ dist k = k ∨ 10 < k ∧ 2 ≤ gap k ∧ dist k = 9 + gap k := by
  induction k with
  | zero => decide
  | succ k ih =>
    rw [gap_succ, dist]
    split_ifs <;> omega

theorem dist_mono {j k : ℕ} (h : j ≤ k) : dist j ≤ dist k :=
  monotone_nat_of_le_succ (fun k => Nat.le_add_right (dist k) (gap k)) h

/-- Both loops double their steps behind the same entry, and stay in range below `2^30`. -/
theorem nextStep {k : ℕ} (hk : dist k < 2 ^ 30) :
    (if k + 1 > 10 then int32OfNat (gap k * 2) else some (gap k)) = some (gap (k + 1)) ∧
      int32OfNat (dist k + gap k) = some (dist (k + 1)) ∧ (dist (k + 1) > 10 ↔ k + 1 > 10) := by
  have hcases := dist_cases k
  rw [gap_succ, dist]
  refine ⟨?_, if_pos (by omega), by omega⟩
  split_ifs
  · exact if_pos (by omega)
  · rfl

section Back

variable {s r : ChainState} {a b c tip best hashGenesisBlock : uint256} {k m n : ℕ}

/-! ## Steps back -/

theorem stepBack_none (s : ChainState) (n : ℕ) : s.stepBack n none = none := by
  induction n with
  | zero => rfl
  | succ n ih => exact ih

theorem stepBack_add (p : Option uint256) :
    s.stepBack (m + n) p = s.stepBack n (s.stepBack m p) := by
  induction m generalizing p with
  | zero => rw [Nat.zero_add, stepBack]
  | succ m ih => rw [Nat.succ_add, stepBack, stepBack, ih]

theorem above_of_stepBack (h : s.stepBack n (some a) = some b) : Above s.pprev a b := by
  induction n generalizing a with
  | zero =>
    cases h
    exact .refl
  | succ n ih =>
    rw [stepBack, bind_some] at h
    cases hp : s.pprev a with
    | none => simp [hp, stepBack_none] at h
    | some p =>
      rw [hp] at h
      exact .head hp (ih h)

theorem nHeight_of_stepBack (hs : TreeOk s) (h : s.stepBack n (some a) = some b) :
    s.nHeight a = s.nHeight b + n := by
  induction n generalizing a with
  | zero =>
    cases h
    rfl
  | succ n ih =>
    rw [stepBack, bind_some] at h
    cases hp : s.pprev a with
    | none => simp [hp, stepBack_none] at h
    | some p =>
      rw [hp] at h
      rw [hs.graded a p hp, ih h]
      omega

/-- There are as many blocks behind a block as its height says. -/
theorem exists_stepBack (hs : TreeOk s) (ha : (s.entry a).isSome) (hn : n ≤ s.nHeight a) :
    ∃ b, s.stepBack n (some a) = some b ∧ (s.entry b).isSome := by
  induction n generalizing a with
  | zero => exact ⟨a, rfl, ha⟩
  | succ n ih =>
    obtain ⟨e, he⟩ := isSome_iff_exists.mp ha
    cases hp : s.pprev a with
    | none =>
      have hroot : e.pprev = none := by rwa [ChainState.pprev, he] at hp
      have hheight : s.nHeight a = e.nHeight := by rw [ChainState.nHeight, he, elim_some]
      have hzero := hs.root a e he hroot
      omega
    | some p =>
      obtain ⟨pe, hpe⟩ := hs.pprev_entry hp
      have hheight := hs.graded a p hp
      obtain ⟨b, hb, hentry⟩ := ih (isSome_of_eq_some hpe) (by omega)
      refine ⟨b, ?_, hentry⟩
      rw [stepBack, bind_some, hp, hb]

theorem known_of_stepBack (hs : TreeOk s) (ha : (s.entry a).isSome)
    (h : s.stepBack n (some a) = some b) : (s.entry b).isSome := by
  have hheight := nHeight_of_stepBack hs h
  obtain ⟨c, hc, hentry⟩ := @exists_stepBack s a n hs ha (by omega)
  cases h.symm.trans hc
  exact hentry

/-! ## What is built -/

theorem stepBack_dist_none (hp : s.stepBack (dist k) (some tip) = none) (i : ℕ) :
    s.stepBack (dist (k + i)) (some tip) = none := by
  rw [← Nat.add_sub_cancel' (dist_mono (Nat.le_add_right k i)), stepBack_add, hp, stepBack_none]

theorem locatorLoop_entries (hs : TreeOk s) (htip : s.nHeight tip < 2 ^ 30) {fuel : ℕ}
    {vHave : List uint256} (hk : vHave.length = k) (hfuel : s.nHeight tip < dist k + fuel) :
    ∃ l, s.locatorLoop fuel (gap k) vHave (s.stepBack (dist k) (some tip)) = some (vHave ++ l) ∧
      ∀ i, l[i]? = s.stepBack (dist (k + i)) (some tip) := by
  induction fuel generalizing k vHave with
  | zero =>
    cases hp : s.stepBack (dist k) (some tip) with
    | none => exact ⟨[], by rw [append_nil]; rfl, fun i => (stepBack_dist_none hp i).symm⟩
    | some p =>
      have hheight := nHeight_of_stepBack hs hp
      omega
  | succ fuel ih =>
    cases hp : s.stepBack (dist k) (some tip) with
    | none => exact ⟨[], by rw [append_nil]; rfl, fun i => (stepBack_dist_none hp i).symm⟩
    | some p =>
      have hheight := nHeight_of_stepBack hs hp
      have hgap := dist_cases k
      obtain ⟨hstep, -, -⟩ := @nextStep k (by omega)
      obtain ⟨l, hl, hentries⟩ := @ih (k + 1) (vHave ++ [p])
        (by rw [length_append, hk, length_singleton]) (by rw [dist]; omega)
      refine ⟨p :: l, ?_, fun i => ?_⟩
      · rw [locatorLoop]
        simp only [length_append, hk, length_singleton, hstep, bind_eq_bind, bind_some]
        rw [← hp, ← stepBack_add, ← dist, hl, append_assoc, singleton_append]
      · cases i with
        | zero => exact hp.symm
        | succ i => rw [getElem?_cons_succ, hentries, Nat.add_right_comm, Nat.add_assoc]

theorem locatorSet_entries (hs : TreeOk s) (htip : s.nHeight tip < 2 ^ 30)
    (hentry : (s.entry tip).isSome) :
    ∃ l, s.locatorSet hashGenesisBlock tip = some (l ++ [hashGenesisBlock]) ∧
      ∀ i, l[i]? = s.stepBack (dist i) (some tip) := by
  obtain ⟨e, he⟩ := isSome_iff_exists.mp hentry
  obtain ⟨l, hl, hentries⟩ := @locatorLoop_entries s tip 0 hs htip s.size [] rfl
    (by simpa [dist] using hs.nHeight_lt_size he)
  refine ⟨l, ?_, fun i => by rw [hentries, Nat.zero_add]⟩
  exact congrArg (Option.map fun vHave => vHave ++ [hashGenesisBlock]) hl

/-! ## What is read -/

theorem distanceLoop_eq (before : List uint256) (after : List uint256)
    (hbefore : ∀ h ∈ before, r.IsInMainChain h = false) (ha : r.IsInMainChain a)
    (hdist : ∀ i < before.length, dist (k + i) < 2 ^ 30) :
    r.distanceLoop (dist k) (gap k) (before ++ a :: after) = some (dist (k + before.length)) := by
  induction before generalizing k with
  | nil => exact if_pos ha
  | cons h before ih =>
    obtain ⟨hh, hrest⟩ := forall_mem_cons.mp hbefore
    obtain ⟨hstep, hnext, hten⟩ := @nextStep k (hdist 0 (by simp))
    have hlater := @ih (k + 1) hrest fun i hi => by
      rw [Nat.add_assoc, Nat.add_comm 1]
      exact hdist (i + 1) (by simpa using hi)
    rw [cons_append, distanceLoop, hh]
    simp only [Bool.false_eq_true, if_false, hnext, hten, hstep, bind_eq_bind, bind_some]
    rw [hlater, length_cons, Nat.add_assoc, Nat.add_comm 1]

/-! ## Two nodes -/

/-- The sender has a tree of blocks below `2^30`, and the reader a main chain from the same genesis
block. Of the blocks of the sender the reader may have any that are closed under ancestors. -/
structure TwoNodes (s r : ChainState) (hashGenesisBlock tip best : uint256) : Prop where
  sender : TreeOk s
  reader : TreeOk r
  known : (s.entry tip).isSome
  height : s.nHeight tip < 2 ^ 30
  senderRoot : ∀ h, (s.entry h).isSome → s.pprev h = none → h = hashGenesisBlock
  readerRoot : ∀ h, (r.entry h).isSome → r.pprev h = none → h = hashGenesisBlock
  agree : ∀ h, (s.entry h).isSome → (r.entry h).isSome → r.pprev h = s.pprev h
  pindexBest : r.pindexBest = some best
  bestKnown : (r.entry best).isSome
  links : Linked r.pprev r.pnext (some best)

section

variable (h : TwoNodes s r hashGenesisBlock tip best)
include h

theorem TwoNodes.isInMainChain_iff : r.IsInMainChain a ↔ Above r.pprev best a := by
  rw [IsInMainChain, h.pindexBest, Bool.and_eq_true, Bool.or_eq_true, decide_eq_true_iff]
  constructor
  · rintro ⟨-, hnext | heq⟩
    · obtain ⟨b, hb⟩ := isSome_iff_exists.mp hnext
      obtain ⟨⟨t, ht, habove⟩, hparent⟩ := (h.links a b).mp hb
      cases ht
      exact habove.tail hparent
    · cases heq
      exact .refl
  · intro habove
    rcases Relation.ReflTransGen.cases_tail habove with rfl | ⟨c, hc, hparent⟩
    · exact ⟨h.bestKnown, Or.inr rfl⟩
    · obtain ⟨e, he⟩ := h.reader.pprev_entry hparent
      refine ⟨isSome_of_eq_some he, Or.inl ?_⟩
      exact isSome_of_eq_some ((h.links a c).mpr ⟨⟨best, rfl, hc⟩, hparent⟩)

theorem TwoNodes.common (ha : (s.entry a).isSome)
    (hmain : Above r.pprev best a) (hab : Above s.pprev a b) : Above r.pprev best b := by
  induction hab using Relation.ReflTransGen.head_induction_on with
  | refl => exact hmain
  | head hac _ ih =>
    have hread := h.isInMainChain_iff.mpr hmain
    rw [IsInMainChain, Bool.and_eq_true] at hread
    obtain ⟨e, he⟩ := h.sender.pprev_entry hac
    exact ih (isSome_of_eq_some he) (hmain.tail ((h.agree _ ha hread.1).trans hac))

theorem TwoNodes.genesis :
    s.stepBack (s.nHeight tip) (some tip) = some hashGenesisBlock ∧
      Above r.pprev best hashGenesisBlock := by
  constructor
  · obtain ⟨b, hb, hentry⟩ := exists_stepBack h.sender h.known le_rfl
    have hheight := nHeight_of_stepBack h.sender hb
    have hroot : s.pprev b = none := by
      rw [eq_none_iff_forall_ne_some]
      intro p hp
      have := h.sender.graded b p hp
      omega
    rw [hb, h.senderRoot b hentry hroot]
  · obtain ⟨e, he⟩ := isSome_iff_exists.mp h.bestKnown
    obtain ⟨b, habove, hroot⟩ := h.reader.exists_root he
    have hread := h.isInMainChain_iff.mpr habove
    rw [IsInMainChain, Bool.and_eq_true] at hread
    rwa [← h.readerRoot b hread.1 hroot]

/-- The block that is found is common to both chains, at most twice as far from the tip of the
sender as any common block, and at the distance that is retraced unless it is found behind all
entries. -/
theorem locator_finds_common :
    ∃ vHave b m, s.locatorSet hashGenesisBlock tip = some vHave ∧
      r.locatorGetBlockIndex vHave = some b ∧ Above s.pprev tip b ∧ Above r.pprev best b ∧
      s.stepBack m (some tip) = some b ∧
      (∀ d c, s.stepBack d (some tip) = some c → Above r.pprev best c → m ≤ 2 * d) ∧
      ∃ n, r.locatorGetDistanceBack vHave = some n ∧
        ((∃ hash ∈ vHave.dropLast, r.IsInMainChain hash) → n = m) := by
  obtain ⟨hgenesis, hgenesisMain⟩ := h.genesis
  obtain ⟨l, hset, hentries⟩ := @locatorSet_entries s tip hashGenesisBlock h.sender h.height h.known
  have hfound : ((l ++ [hashGenesisBlock]).find? r.IsInMainChain).isSome := by
    rw [find?_isSome]
    exact ⟨hashGenesisBlock, by simp, h.isInMainChain_iff.mpr hgenesisMain⟩
  obtain ⟨b, hb⟩ := isSome_iff_exists.mp hfound
  obtain ⟨hmain, before, after, hsplit, hbefore⟩ := find?_eq_some_iff_append.mp hb
  have hlength : before.length ≤ l.length := by
    have hlengths := congrArg List.length hsplit
    simp only [length_append, length_cons, length_nil] at hlengths
    omega
  -- the entries before it are blocks of the sender that the reader does not have in its main chain
  have hmissed : ∀ i < before.length, ∃ x, s.stepBack (dist i) (some tip) = some x ∧
      ¬ Above r.pprev best x := by
    intro i hi
    have hget := congrArg (fun vHave => vHave[i]?) hsplit
    rw [getElem?_append_left (by omega), getElem?_append_left hi, getElem?_eq_getElem hi] at hget
    refine ⟨before[i], (hentries i).symm.trans hget, fun habove => ?_⟩
    have hfalse := hbefore _ (getElem_mem hi)
    rw [h.isInMainChain_iff.mpr habove] at hfalse
    cases hfalse
  have hdist : ∀ i < before.length, dist (0 + i) < 2 ^ 30 := by
    intro i hi
    obtain ⟨x, hx, -⟩ := hmissed i hi
    have hheight := nHeight_of_stepBack h.sender hx
    have hbound := h.height
    rw [Nat.zero_add]
    omega
  have hretraced := distanceLoop_eq before after (by simpa using hbefore) hmain hdist
  rw [Nat.zero_add] at hretraced
  -- a common block is further back than the entries before
  have hbehind : ∀ d c, s.stepBack d (some tip) = some c → Above r.pprev best c →
      dist before.length ≤ 2 * d := by
    intro d c hc hcommon
    cases hlen : before.length with
    | zero => exact Nat.zero_le _
    | succ j =>
      obtain ⟨x, hx, hnot⟩ := hmissed j (by omega)
      have hlt : dist j < d := by
        by_contra hle
        rw [← Nat.add_sub_cancel' (not_lt.mp hle), stepBack_add, hc] at hx
        exact hnot (h.common (known_of_stepBack h.sender h.known hc) hcommon (above_of_stepBack hx))
      have hgap := dist_cases j
      rw [dist]
      omega
  have hget := congrArg (fun vHave => vHave[before.length]?) hsplit
  rw [getElem?_append_right le_rfl, Nat.sub_self] at hget
  have hindex : r.locatorGetBlockIndex (l ++ [hashGenesisBlock]) = some b :=
    congrArg (fun found => found.or r.pindexGenesisBlock) hb
  have habove := h.isInMainChain_iff.mp hmain
  rcases hlength.lt_or_eq with hlt | heq
  · rw [getElem?_append_left hlt, hentries] at hget
    exact ⟨_, b, dist before.length, hset, hindex, above_of_stepBack hget, habove, hget, hbehind,
      _, hsplit ▸ hretraced, fun _ => rfl⟩
  · rw [heq, getElem?_append_right le_rfl, Nat.sub_self] at hget
    obtain rfl := Option.some.inj hget
    refine ⟨_, _, s.nHeight tip, hset, hindex, above_of_stepBack hgenesis, habove, hgenesis, ?_, _,
      hsplit ▸ hretraced, ?_⟩
    · intro d c hc hcommon
      have hnone : s.stepBack (dist before.length) (some tip) = none := by
        rw [← hentries, heq]
        exact getElem?_eq_none le_rfl
      have hfar : s.nHeight tip < dist before.length := by
        by_contra hle
        obtain ⟨x, hx, -⟩ := exists_stepBack h.sender h.known (not_lt.mp hle)
        cases hnone.symm.trans hx
      exact hfar.le.trans (hbehind d c hc hcommon)
    · rw [dropLast_concat]
      rintro ⟨hash, hmem, hread⟩
      rw [(append_inj hsplit heq.symm).1] at hmem
      have hfalse := hbefore hash hmem
      rw [hread] at hfalse
      cases hfalse

end

end Back

/-- A node whose tip is on the side branch asks one whose best block is on the other branch. -/
theorem locator_finds_common_sampleFork : ∃ vHave b, SampleFork.chain.locatorSet 1 4 = some vHave ∧
    SampleFork.chain.locatorGetBlockIndex vHave = some b ∧ Above SampleFork.chain.pprev 2 b := by
  have hroot : ∀ h, (SampleFork.chain.entry h).isSome →
      SampleFork.chain.pprev h = none → h = 1 := by
    intro h
    rw [ChainState.pprev, SampleFork.entry_chain]
    split_ifs <;> simp_all [SampleFork.entry]
  have hnodes : TwoNodes SampleFork.chain SampleFork.chain 1 4 2 :=
    ⟨SampleFork.treeOk, SampleFork.treeOk, by decide, by decide, hroot, hroot,
      fun _ _ _ => rfl, rfl, by decide, SampleFork.linked⟩
  obtain ⟨vHave, b, m, hset, hindex, -, habove, -⟩ := locator_finds_common hnodes
  exact ⟨vHave, b, hset, hindex, habove⟩

end Phoenixcoin.Analysis
