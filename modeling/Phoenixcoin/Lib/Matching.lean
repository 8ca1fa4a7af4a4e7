import Mathlib.Data.List.NodupEquivFin

/-!
# Matching in order

Every entry of one list is to be matched with an entry of another one, in order and each once. The
greedy way, which takes the first entry that fits, finds a matching whenever there is one.
-/

set_option autoImplicit false

namespace Phoenixcoin.Lib

open List

variable {α β : Type} (p : α → β → Bool)

/-- The greedy matching of `as` into `bs`. -/
def greedyMatch : List α → List β → Bool
  | [], _ => true
  | _ :: _, [] => false
  | a :: as, b :: bs => if p a b then greedyMatch as bs else greedyMatch (a :: as) bs

/-- An assignment of the entries of `as` to entries of `bs` that keeps their order. -/
def OrderedMatch (as : List α) (bs : List β) : Prop :=
  ∃ f : Fin as.length ↪o Fin bs.length, ∀ i, p (as.get i) (bs.get (f i)) = true

variable {as : List α} {bs : List β}

/-- An assignment in order picks a sublist. -/
theorem orderedMatch_iff_sublist :
    OrderedMatch p as bs ↔ ∃ cs, cs.Sublist bs ∧ Forall₂ (fun a c => p a c = true) as cs := by
  constructor
  · intro h
    obtain ⟨f, hf⟩ := h
    refine ⟨ofFn fun i => bs.get (f i), ?_, ?_⟩
    · rw [sublist_iff_exists_fin_orderEmbedding_get_eq]
      refine ⟨(Fin.castOrderIso length_ofFn).toOrderEmbedding.trans f, ?_⟩
      intro i
      rw [get_ofFn]
      rfl
    · rw [forall₂_iff_get]
      refine ⟨length_ofFn.symm, ?_⟩
      intro i hi hi'
      rw [get_ofFn]
      exact hf ⟨i, hi⟩
  · intro h
    obtain ⟨cs, hsub, hall⟩ := h
    obtain ⟨f, hf⟩ := sublist_iff_exists_fin_orderEmbedding_get_eq.mp hsub
    have hlength := hall.length_eq
    refine ⟨(Fin.castOrderIso hlength).toOrderEmbedding.trans f, ?_⟩
    intro i
    have hget := (forall₂_iff_get.mp hall).2 i.1 i.2 (hlength ▸ i.2)
    change p (as.get i) (bs.get (f (Fin.cast hlength i))) = true
    rw [← hf]
    exact hget

/-- The greedy matching is complete. -/
theorem greedyMatch_iff : greedyMatch p as bs = true ↔ OrderedMatch p as bs := by
  rw [orderedMatch_iff_sublist]
  induction bs generalizing as with
  | nil =>
    cases as with
    | nil => simp [greedyMatch]
    | cons a as => simp [greedyMatch, sublist_nil]
  | cons b bs ih =>
    cases as with
    | nil => simp [greedyMatch]
    | cons a as =>
      unfold greedyMatch
      constructor
      · intro h
        split at h
        · next hab =>
          obtain ⟨cs, hsub, hall⟩ := ih.mp h
          exact ⟨b :: cs, hsub.cons_cons b, Forall₂.cons hab hall⟩
        · obtain ⟨cs, hsub, hall⟩ := ih.mp h
          exact ⟨cs, hsub.cons b, hall⟩
      · intro h
        obtain ⟨cs, hsub, hall⟩ := h
        obtain ⟨c, cs, hac, hrest, rfl⟩ := forall₂_cons_left_iff.mp hall
        split
        · -- Whatever `a` was assigned to, the rest is matched after `b`.
          apply ih.mpr
          exact ⟨cs, hsub.of_cons_cons, hrest⟩
        · next hab =>
          have hskip : (c :: cs).Sublist bs := by
            cases hsub with
            | cons _ h => exact h
            | cons_cons _ h => exact absurd hac hab
          exact ih.mpr ⟨c :: cs, hskip, hall⟩

section

variable (h : OrderedMatch p as bs)
include h

/-- Reading both lists from their ends. -/
theorem OrderedMatch.reverse : OrderedMatch p as.reverse bs.reverse := by
  obtain ⟨cs, hsub, hall⟩ := (orderedMatch_iff_sublist p).mp h
  exact (orderedMatch_iff_sublist p).mpr ⟨cs.reverse, hsub.reverse, rel_reverse hall⟩

theorem OrderedMatch.length_le : as.length ≤ bs.length := by
  obtain ⟨cs, hsub, hall⟩ := (orderedMatch_iff_sublist p).mp h
  exact hall.length_eq.trans_le hsub.length_le

theorem OrderedMatch.take (n : ℕ) : OrderedMatch p (as.take n) bs := by
  obtain ⟨cs, hsub, hall⟩ := (orderedMatch_iff_sublist p).mp h
  exact (orderedMatch_iff_sublist p).mpr
    ⟨cs.take n, (take_sublist n cs).trans hsub, forall₂_take n hall⟩

/-- A matching only depends on the entries that are there. -/
theorem OrderedMatch.mono {q : α → β → Bool}
    (hpq : ∀ a ∈ as, ∀ b ∈ bs, p a b = true → q a b = true) :
    OrderedMatch q as bs := by
  obtain ⟨f, hf⟩ := h
  refine ⟨f, ?_⟩
  intro i
  exact hpq _ (get_mem as i) _ (get_mem bs (f i)) (hf i)

end

end Phoenixcoin.Lib
