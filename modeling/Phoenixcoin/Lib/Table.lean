import Mathlib.Data.Finmap
import Mathlib.Algebra.Order.BigOperators.Group.Finset

/-!
# Finite tables

A finite map from keys to values, with the conditional lookup rules that case analyses
need and the sum of a value function over all rows.
-/

set_option autoImplicit false

namespace Phoenixcoin.Lib

open Option Finmap

/-- A finite table of rows `K ↦ V`. -/
abbrev Table (K V : Type) : Type := Finmap fun _ : K => V

namespace Table

variable {K V : Type} [DecidableEq K]

theorem lookup_insert_ite (k k' : K) (v : V) (t : Table K V) :
    (insert k' v t).lookup k = if k = k' then some v else t.lookup k := by
  by_cases h : k = k'
  · subst h
    rw [lookup_insert, if_pos rfl]
  · rw [lookup_insert_of_ne _ h, if_neg h]

theorem lookup_erase_ite (k k' : K) (t : Table K V) :
    (erase k' t).lookup k = if k = k' then none else t.lookup k := by
  by_cases h : k = k'
  · subst h
    rw [lookup_erase, if_pos rfl]
  · rw [lookup_erase_ne h, if_neg h]

theorem lookup_union_or (k : K) (s t : Table K V) :
    (s ∪ t).lookup k = (s.lookup k).or (t.lookup k) := by
  by_cases h : k ∈ s
  · rw [lookup_union_left h]
    obtain ⟨v, hv⟩ := mem_iff.mp h
    rw [hv, some_or]
  · rw [lookup_union_right h, lookup_eq_none.mpr h, none_or]

variable {t : Table K V} {k : K} {v : V}

/-- A table that is not empty has a row. -/
theorem exists_mem_of_ne_empty (h : t ≠ ∅) : ∃ k, k ∈ t := by
  by_contra hnone
  apply h
  apply ext_lookup
  intro k
  exact lookup_eq_none.mpr fun hmem => hnone ⟨k, hmem⟩

theorem erase_of_lookup_none (h : t.lookup k = none) : erase k t = t := by
  apply ext_lookup
  intro k'
  rw [lookup_erase_ite]
  split
  · next hk => rw [hk, h]
  · rfl

theorem insert_of_lookup_some (h : t.lookup k = some v) : insert k v t = t := by
  apply ext_lookup
  intro k'
  rw [lookup_insert_ite]
  split
  · next hk => rw [hk, h]
  · rfl

theorem erase_insert_of_lookup_none (h : t.lookup k = none) :
    erase k (insert k v t) = t := by
  apply ext_lookup
  intro k'
  rw [lookup_erase_ite, lookup_insert_ite]
  split
  · next hk => rw [hk, h]
  · rfl

/-! ## The number of rows -/

theorem keys_insert (k : K) (v : V) (t : Table K V) :
    (insert k v t).keys = insert k t.keys := by
  apply Finset.ext
  intro k'
  rw [Finset.mem_insert, mem_keys, mem_keys, mem_insert]

theorem card_keys_insert (h : t.lookup k = none) :
    (insert k v t).keys.card = t.keys.card + 1 := by
  rw [keys_insert, Finset.card_insert_of_notMem]
  exact lookup_eq_none.mp h

theorem card_keys_le_insert (k : K) (v : V) (t : Table K V) :
    t.keys.card ≤ (insert k v t).keys.card := by
  rw [keys_insert]
  exact Finset.card_le_card (Finset.subset_insert k t.keys)

/-! ## Sums over all rows -/

variable (f : V → ℤ)

/-- The sum of `f` over the rows of a table. -/
def total (t : Table K V) : ℤ :=
  ∑ k ∈ t.keys, (t.lookup k).elim 0 f

@[simp]
theorem total_empty : total f (∅ : Table K V) = 0 := by
  simp [total]

theorem total_congr {f : V → ℤ} {t t' : Table K V}
    (h : ∀ k, (t.lookup k).map f = (t'.lookup k).map f) : total f t = total f t' := by
  have hkeys : t.keys = t'.keys := by
    ext k
    rw [mem_keys, mem_keys, ← lookup_isSome, ← lookup_isSome,
      ← isSome_map, h k, isSome_map]
  rw [total, hkeys]
  refine Finset.sum_congr rfl fun k _ => ?_
  have hk := congrArg (fun o => o.elim 0 id) (h k)
  rwa [elim_map, elim_map] at hk

/-- The sum splits into one row and the table without it. -/
theorem total_erase (k : K) (t : Table K V) :
    total f t = (t.lookup k).elim 0 f + total f (erase k t) := by
  unfold total
  rw [keys_erase]
  by_cases h : k ∈ t.keys
  · rw [← Finset.add_sum_erase _ _ h]
    congr 1
    refine Finset.sum_congr rfl fun k' hk' => ?_
    rw [lookup_erase_ite, if_neg (Finset.ne_of_mem_erase hk')]
  · have hnone : t.lookup k = none := lookup_eq_none.mpr fun hk => h (mem_keys.mpr hk)
    rw [Finset.erase_eq_of_notMem h, hnone, erase_of_lookup_none hnone]
    simp

/-- Inserting a row adds its value and takes away that of the row it replaces. -/
theorem total_insert (k : K) (v : V) (t : Table K V) :
    total f (insert k v t) = total f t + f v - (t.lookup k).elim 0 f := by
  have herase : erase k (insert k v t) = erase k t := by
    apply ext_lookup
    intro k'
    rw [lookup_erase_ite, lookup_erase_ite, lookup_insert_ite]
    split <;> rfl
  rw [total_erase f k (insert k v t), total_erase f k t, lookup_insert, herase]
  simp only [elim_some]
  omega

end Table

end Phoenixcoin.Lib
