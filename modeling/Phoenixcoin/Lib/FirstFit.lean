import Phoenixcoin.Lib.Matching
import Mathlib.Data.List.Induction
import Mathlib.Data.List.Perm.Subperm

/-!
# First fit

Entries arrive one by one, and each goes to the first free slot that it fits. When an entry fits
equal slots only, the `k`-th slot of a kind ends with the `k`-th entry that fits it, and no way of
assigning entries to slots fills more of them.
-/

set_option autoImplicit false

namespace Phoenixcoin.Lib

open List

variable {α β : Type} (p : α → β → Bool)

/-- The first free slot that `a` fits takes it. -/
def placeFirst (a : α) : List (β × Option α) → List (β × Option α)
  | [] => []
  | (b, some a') :: slots => (b, some a') :: placeFirst a slots
  | (b, none) :: slots => if p a b then (b, some a) :: slots else (b, none) :: placeFirst a slots

section Filter

variable {p} {as : List α} {a : α}

theorem filter_concat_of_fit {b : β} (h : p a b = true) :
    ((as ++ [a]).filter fun a => p a b) = (as.filter fun a => p a b) ++ [a] := by
  rw [filter_append, filter_cons_of_pos (p := fun a => p a b) h, filter_nil]

theorem filter_concat_of_not_fit {b : β} (h : ¬ p a b = true) :
    ((as ++ [a]).filter fun a => p a b) = as.filter fun a => p a b := by
  rw [filter_append, filter_cons_of_neg (p := fun a => p a b) h, filter_nil, append_nil]

theorem fit_of_mem_filter {b : β} {k : ℕ} (h : (as.filter fun a => p a b)[k]? = some a) :
    a ∈ as ∧ p a b = true := by
  have hmem := mem_of_getElem? h
  exact mem_filter.mp hmem

end Filter

variable [DecidableEq β]

/-- The slots `bs` after the entries `as`, when the slots `seen` lie before them. -/
def filledSlots (as : List α) : List β → List β → List (β × Option α)
  | _, [] => []
  | seen, b :: bs =>
    (b, (as.filter fun a => p a b)[seen.count b]?) :: filledSlots as (b :: seen) bs

/-- The entries of the filled slots, in the order of the slots. -/
def firstFits (as : List α) (bs : List β) : List α :=
  (filledSlots p as [] bs).filterMap fun slot => slot.2

/-- The filled slots. -/
def coveredSlots (as : List α) (seen bs : List β) : List β :=
  (filledSlots p as seen bs).filterMap fun slot => slot.2.map fun _ => slot.1

variable {p} {as : List α} {a : α} {seen bs : List β}

/-- An entry makes no difference to slots whose free ones lie before. -/
theorem filledSlots_concat_of_full
    (h : ∀ b ∈ bs, p a b = true → (as.filter fun a => p a b).length < seen.count b) :
    filledSlots p (as ++ [a]) seen bs = filledSlots p as seen bs := by
  induction bs generalizing seen with
  | nil => rfl
  | cons b bs ih =>
    have hrest : filledSlots p (as ++ [a]) (b :: seen) bs = filledSlots p as (b :: seen) bs := by
      apply ih
      intro b' hmem hfit
      have hlt := h b' (mem_cons_of_mem _ hmem) hfit
      have hle := count_le_count_cons (a := b') (b := b) (l := seen)
      omega
    unfold filledSlots
    rw [hrest]
    by_cases hfit : p a b = true
    · have hlt := h b mem_cons_self hfit
      rw [filter_concat_of_fit hfit, getElem?_eq_none (by simp; omega), getElem?_eq_none (by omega)]
    · rw [filter_concat_of_not_fit hfit]

/-- One entry more, which fits equal slots only. -/
theorem placeFirst_filledSlots (honly : ∀ b ∈ bs, ∀ b' ∈ bs, p a b = true → p a b' = true → b = b')
    (hfree : ∀ b ∈ bs, p a b = true → seen.count b ≤ (as.filter fun a => p a b).length) :
    placeFirst p a (filledSlots p as seen bs) = filledSlots p (as ++ [a]) seen bs := by
  induction bs generalizing seen with
  | nil => rfl
  | cons b bs ih =>
    have honly' : ∀ b ∈ bs, ∀ b' ∈ bs, p a b = true → p a b' = true → b = b' :=
      fun c hc c' hc' => honly c (mem_cons_of_mem _ hc) c' (mem_cons_of_mem _ hc')
    unfold filledSlots
    by_cases hfit : p a b = true
    · have hle := hfree b mem_cons_self hfit
      have hsame : ∀ b' ∈ bs, p a b' = true → b' = b := fun b' hmem hfit' =>
        honly b' (mem_cons_of_mem _ hmem) b mem_cons_self hfit' hfit
      rw [filter_concat_of_fit hfit]
      by_cases hfull : seen.count b < (as.filter fun a => p a b).length
      · rw [getElem?_append_left hfull, getElem?_eq_getElem hfull, placeFirst, ih honly']
        intro b' hmem hfit'
        rw [hsame b' hmem hfit', count_cons_self]
        omega
      · have hcount : seen.count b = (as.filter fun a => p a b).length := by omega
        rw [getElem?_eq_none (by omega), placeFirst, if_pos hfit, hcount,
          getElem?_concat_length, filledSlots_concat_of_full]
        intro b' hmem hfit'
        rw [hsame b' hmem hfit', count_cons_self]
        omega
    · rw [filter_concat_of_not_fit hfit]
      have hrest : placeFirst p a (filledSlots p as (b :: seen) bs) =
          filledSlots p (as ++ [a]) (b :: seen) bs := by
        apply ih honly'
        intro b' hmem hfit'
        have hne : b ≠ b' := by
          intro heq
          rw [heq] at hfit
          exact hfit hfit'
        rw [count_cons_of_ne hne]
        exact hfree b' (mem_cons_of_mem _ hmem) hfit'
      cases (as.filter fun a => p a b)[seen.count b]? with
      | none => rw [placeFirst, if_neg hfit, hrest]
      | some a' => rw [placeFirst, hrest]

theorem filledSlots_nil (seen bs : List β) :
    filledSlots p [] seen bs = bs.map fun b => (b, none) := by
  induction bs generalizing seen with
  | nil => rfl
  | cons b bs ih =>
    rw [filledSlots, ih]
    rfl

/-- All entries, one after the other. -/
theorem foldl_placeFirst
    (honly : ∀ a ∈ as, ∀ b ∈ bs, ∀ b' ∈ bs, p a b = true → p a b' = true → b = b') :
    as.foldl (fun slots a => placeFirst p a slots) (bs.map fun b => (b, none)) =
      filledSlots p as [] bs := by
  induction as using reverseRecOn with
  | nil => exact (filledSlots_nil [] bs).symm
  | append_singleton as a ih =>
    have hbefore := ih fun a' hmem => honly a' (mem_append_left _ hmem)
    rw [foldl_append, hbefore]
    apply placeFirst_filledSlots
    · exact honly a (mem_append_right _ mem_cons_self)
    · intro b _ _
      exact Nat.zero_le _

/-! ## What the slots hold -/

/-- The entries match the slots that they lie in. -/
theorem forall₂_coveredSlots (as : List α) (seen bs : List β) :
    Forall₂ (fun a b => p a b = true)
      ((filledSlots p as seen bs).filterMap fun slot => slot.2) (coveredSlots p as seen bs) := by
  unfold coveredSlots
  induction bs generalizing seen with
  | nil => exact Forall₂.nil
  | cons b bs ih =>
    unfold filledSlots
    cases hentry : (as.filter fun a => p a b)[seen.count b]? with
    | none => exact ih (b :: seen)
    | some a => exact Forall₂.cons (fit_of_mem_filter hentry).2 (ih (b :: seen))

theorem coveredSlots_sublist (as : List α) (seen bs : List β) :
    (coveredSlots p as seen bs).Sublist bs := by
  unfold coveredSlots
  induction bs generalizing seen with
  | nil => exact Sublist.slnil
  | cons b bs ih =>
    unfold filledSlots
    cases (as.filter fun a => p a b)[seen.count b]? with
    | none => exact (ih (b :: seen)).cons b
    | some a => exact (ih (b :: seen)).cons_cons b

theorem orderedMatch_firstFits (as : List α) (bs : List β) :
    OrderedMatch p (firstFits p as bs) bs :=
  (orderedMatch_iff_sublist p).mpr ⟨_, coveredSlots_sublist as [] bs, forall₂_coveredSlots as [] bs⟩

theorem mem_of_mem_firstFits (h : a ∈ firstFits p as bs) : a ∈ as ∧ ∃ b ∈ bs, p a b = true := by
  unfold firstFits at h
  generalize ([] : List β) = seen at h
  induction bs generalizing seen with
  | nil => exact absurd h not_mem_nil
  | cons b bs ih =>
    unfold filledSlots at h
    have hlater (h : a ∈ (filledSlots p as (b :: seen) bs).filterMap fun slot => slot.2) :
        a ∈ as ∧ ∃ b' ∈ b :: bs, p a b' = true := by
      obtain ⟨hmem, b', hb', hfit⟩ := ih (b :: seen) h
      exact ⟨hmem, b', mem_cons_of_mem _ hb', hfit⟩
    cases hentry : (as.filter fun a => p a b)[seen.count b]? with
    | none =>
      rw [hentry] at h
      exact hlater h
    | some a' =>
      rw [hentry] at h
      rcases mem_cons.mp h with rfl | h
      · obtain ⟨hmem, hfit⟩ := fit_of_mem_filter hentry
        exact ⟨hmem, b, mem_cons_self, hfit⟩
      · exact hlater h

/-! ## No assignment fills more slots -/

/-- Of each kind, as many slots are filled as there are slots or entries. -/
theorem count_coveredSlots (as : List α) (seen bs : List β) (b : β) :
    (coveredSlots p as seen bs).count b =
      min (bs.count b) ((as.filter fun a => p a b).length - seen.count b) := by
  unfold coveredSlots
  induction bs generalizing seen with
  | nil => simp [filledSlots]
  | cons b' bs ih =>
    have hrest := ih (b' :: seen)
    unfold filledSlots
    by_cases hb : b' = b
    · subst hb
      rw [count_cons_self] at hrest ⊢
      by_cases hfull : seen.count b' < (as.filter fun a => p a b').length
      · rw [getElem?_eq_getElem hfull, filterMap_cons]
        simp only [Option.map_some, count_cons_self, hrest]
        omega
      · rw [getElem?_eq_none (by omega), filterMap_cons]
        simp only [Option.map_none, hrest]
        omega
    · rw [count_cons_of_ne hb] at hrest ⊢
      rw [filterMap_cons]
      cases (as.filter fun a => p a b')[seen.count b']? with
      | none => exact hrest
      | some a =>
        simp only [Option.map_some]
        rw [count_cons_of_ne hb]
        exact hrest

theorem count_le_countP (b : β) (h : Forall₂ (fun a b => p a b = true) as bs) :
    bs.count b ≤ as.countP fun a => p a b := by
  induction h with
  | nil => exact Nat.le_refl _
  | @cons a b' as bs hfit _ ih =>
    by_cases hb : b' = b
    · subst hb
      rw [count_cons_self, countP_cons_of_pos (p := fun a => p a b') hfit]
      omega
    · rw [count_cons_of_ne hb]
      refine le_trans ih ?_
      rw [countP_cons]
      omega

/-- Entries that can be assigned to slots are no more than those that first fit finds. -/
theorem length_le_firstFits {as' : List α} {bs' : List β} (hentries : as'.Subperm as)
    (hslots : bs'.Subperm bs) (hmatch : Forall₂ (fun a b => p a b = true) as' bs') :
    as'.length ≤ (firstFits p as bs).length := by
  have hcovered : bs'.Subperm (coveredSlots p as [] bs) := by
    rw [subperm_ext_iff]
    intro b _
    rw [count_coveredSlots, ← countP_eq_length_filter]
    have hcount := (count_le_countP b hmatch).trans (hentries.countP_le fun a => p a b)
    exact le_min (hslots.count_le b) hcount
  calc as'.length = bs'.length := hmatch.length_eq
    _ ≤ (coveredSlots p as [] bs).length := hcovered.length_le
    _ = (firstFits p as bs).length := (forall₂_coveredSlots as [] bs).length_eq.symm

end Phoenixcoin.Lib
