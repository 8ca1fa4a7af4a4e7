import Phoenixcoin.Lib.Table

/-!
# Tables of tables

A table that finds for a key the rows that belong to it, each under a name of its own. Reading
with a subscript makes the inner table it does not find, so an inner table may be empty.
-/

set_option autoImplicit false

namespace Phoenixcoin.Lib

open Option Finmap

/-- The rows `N ↦ V` of each key. -/
abbrev InvertedIndex (K N V : Type) : Type := Table K (Table N V)

namespace InvertedIndex

variable {K N V : Type} [DecidableEq K]

/-- The value of the subscript. -/
def inner (k : K) (t : InvertedIndex K N V) : Table N V := (t.lookup k).getD ∅

/-- The table after a subscript was read. -/
def touch (k : K) (t : InvertedIndex K N V) : InvertedIndex K N V := insert k (t.inner k) t

/-- No key is left without a row. -/
def NoneEmpty (t : InvertedIndex K N V) : Prop := ∀ k, t.lookup k ≠ some ∅

theorem noneEmpty_empty : NoneEmpty (∅ : InvertedIndex K N V) := by
  intro k h
  cases h

variable {k : K} {t : InvertedIndex K N V} {ks : List K} {n : N}

theorem touch_of_mem (h : k ∈ t) : t.touch k = t := by
  obtain ⟨rows, hrows⟩ := mem_iff.mp h
  have hinner : t.inner k = rows := by rw [inner, hrows, getD_some]
  rw [touch, hinner]
  exact Table.insert_of_lookup_some hrows

theorem lookup_touch_of_notMem (h : k ∉ t) : (t.touch k).lookup k = some ∅ := by
  have hnone := lookup_eq_none.mpr h
  rw [touch, lookup_insert, inner, hnone, getD_none]

theorem lookup_touch_of_ne {k' : K} (h : k' ≠ k) : (t.touch k).lookup k' = t.lookup k' :=
  lookup_insert_of_ne _ h

theorem foldl_touch_of_mem (h : ∀ k ∈ ks, k ∈ t) : ks.foldl (fun t k => t.touch k) t = t := by
  induction ks with
  | nil => rfl
  | cons k ks ih =>
    rw [List.forall_mem_cons] at h
    rw [List.foldl_cons, touch_of_mem h.1, ih h.2]

/-- A key that is not in the index gets an empty inner table. -/
theorem lookup_foldl_touch_of_notMem (hk : k ∈ ks) (h : k ∉ t) :
    (ks.foldl (fun t k => t.touch k) t).lookup k = some ∅ := by
  have hkeep (ks : List K) (t : InvertedIndex K N V) (hempty : t.lookup k = some ∅) :
      (ks.foldl (fun t k => t.touch k) t).lookup k = some ∅ := by
    induction ks generalizing t with
    | nil => exact hempty
    | cons k' ks ih =>
      apply ih
      dsimp only
      by_cases heq : k = k'
      · subst heq
        rw [touch_of_mem (mem_iff.mpr ⟨∅, hempty⟩)]
        exact hempty
      · rw [lookup_touch_of_ne heq]
        exact hempty
  induction ks generalizing t with
  | nil => exact absurd hk List.not_mem_nil
  | cons k' ks ih =>
    by_cases heq : k = k'
    · subst heq
      exact hkeep ks _ (lookup_touch_of_notMem h)
    · apply ih ((List.mem_cons.mp hk).resolve_left heq)
      rw [← lookup_eq_none, lookup_touch_of_ne heq]
      exact lookup_eq_none.mpr h

/-! ## Rows by their names -/

variable [DecidableEq N]

/-- The row with a name under a key. -/
def find (k : K) (n : N) (t : InvertedIndex K N V) : Option V :=
  (t.lookup k).bind fun inner => inner.lookup n

/-- A row is put under a key, unless its name is taken there. -/
def put (n : N) (v : V) (t : InvertedIndex K N V) (k : K) : InvertedIndex K N V :=
  insert k (if n ∈ t.inner k then t.inner k else insert n v (t.inner k)) t

/-- A row is removed, and with the last row of a key the key. -/
def remove (n : N) (t : InvertedIndex K N V) (k : K) : InvertedIndex K N V :=
  let rest := erase n (t.inner k)
  if rest.keys = ∅ then erase k t else insert k rest t

theorem find_eq_inner (k : K) (n : N) (t : InvertedIndex K N V) :
    t.find k n = (t.inner k).lookup n := by
  unfold find inner
  cases t.lookup k with
  | none => rw [bind_none, getD_none, lookup_empty]
  | some rows => rfl

theorem find_of_lookup {rows : Table N V} (h : t.lookup k = some rows) :
    t.find k n = rows.lookup n := by
  rw [find, h, bind_some]

theorem find_of_lookup_none (h : t.lookup k = none) : t.find k n = none := by
  rw [find, h, bind_none]

/-- Where no inner table is empty, a key is there for a row. -/
theorem NoneEmpty.exists_find (h : NoneEmpty t) (hk : k ∈ t) : ∃ n v, t.find k n = some v := by
  obtain ⟨rows, hrows⟩ := mem_iff.mp hk
  have hne : rows ≠ ∅ := fun hempty => h k (hempty ▸ hrows)
  obtain ⟨n, hn⟩ := Table.exists_mem_of_ne_empty hne
  obtain ⟨v, hv⟩ := mem_iff.mp hn
  exact ⟨n, v, (find_of_lookup hrows).trans hv⟩

theorem mem_of_find {v : V} (h : t.find k n = some v) : k ∈ t := by
  by_contra hk
  rw [find_of_lookup_none (lookup_eq_none.mpr hk)] at h
  cases h

/-- Reading a subscript finds no new rows. -/
@[simp]
theorem find_touch (k k' : K) (n : N) (t : InvertedIndex K N V) :
    (t.touch k).find k' n = t.find k' n := by
  by_cases hk : k' = k
  · subst hk
    rw [touch, find_of_lookup (lookup_insert _), find_eq_inner]
  · rw [find, lookup_touch_of_ne hk, find]

@[simp]
theorem find_foldl_touch (ks : List K) (k : K) (n : N) (t : InvertedIndex K N V) :
    (ks.foldl (fun t k => t.touch k) t).find k n = t.find k n := by
  induction ks generalizing t with
  | nil => rfl
  | cons k' ks ih => rw [List.foldl_cons, ih, find_touch]

/-! ## Rows that are put -/

theorem find_put (k k' : K) (n n' : N) (v : V) (t : InvertedIndex K N V) :
    (t.put n v k).find k' n' =
      if k' = k ∧ n' = n then some ((t.find k n).getD v) else t.find k' n' := by
  by_cases hk : k' = k
  · subst hk
    rw [put, find_of_lookup (lookup_insert _), find_eq_inner, find_eq_inner]
    by_cases hmem : n ∈ t.inner k'
    · obtain ⟨old, hold⟩ := mem_iff.mp hmem
      rw [if_pos hmem]
      by_cases hn : n' = n
      · subst hn
        rw [if_pos ⟨rfl, rfl⟩, hold, getD_some]
      · rw [if_neg fun h => hn h.2]
    · rw [if_neg hmem, Table.lookup_insert_ite, lookup_eq_none.mpr hmem, getD_none]
      by_cases hn : n' = n
      · rw [if_pos hn, if_pos ⟨rfl, hn⟩]
      · rw [if_neg hn, if_neg fun h => hn h.2]
  · rw [if_neg fun h => hk h.1, put, find, lookup_insert_of_ne _ hk, find]

/-- A row is put under a key, unless its name is taken there. -/
theorem NoneEmpty.put (h : NoneEmpty t) (n : N) (v : V) (k : K) : NoneEmpty (t.put n v k) := by
  intro k' hk'
  by_cases hk : k' = k
  · subst hk
    have hfind := find_put k' k' n n v t
    rw [if_pos ⟨rfl, rfl⟩, find_of_lookup hk'] at hfind
    cases hfind
  · rw [InvertedIndex.put, lookup_insert_of_ne _ hk] at hk'
    exact h k' hk'

/-! ## Rows that are removed -/

theorem lookup_remove_of_ne {k' : K} (n : N) (h : k' ≠ k) :
    (t.remove n k).lookup k' = t.lookup k' := by
  unfold remove
  dsimp only
  split
  · exact lookup_erase_ne h
  · exact lookup_insert_of_ne _ h

theorem find_remove (k k' : K) (n n' : N) (t : InvertedIndex K N V) :
    (t.remove n k).find k' n' = if k' = k ∧ n' = n then none else t.find k' n' := by
  by_cases hk : k' = k
  · subst hk
    have hrest : (t.remove n k').find k' n' = (erase n (t.inner k')).lookup n' := by
      unfold remove
      dsimp only
      split
      · next hempty =>
        rw [find_of_lookup_none (lookup_erase _ _), lookup_eq_none.mpr]
        intro hmem
        have hkey := mem_keys.mpr hmem
        rw [hempty] at hkey
        exact absurd hkey (Finset.notMem_empty _)
      · exact find_of_lookup (lookup_insert _)
    rw [hrest, Table.lookup_erase_ite, find_eq_inner]
    by_cases hn : n' = n
    · rw [if_pos hn, if_pos ⟨rfl, hn⟩]
    · rw [if_neg hn, if_neg fun h => hn h.2]
  · rw [if_neg fun h => hk h.1, find, lookup_remove_of_ne n hk, find]

/-- A row is removed, and with the last row of a key the key. -/
theorem NoneEmpty.remove (h : NoneEmpty t) (n : N) (k : K) : NoneEmpty (t.remove n k) := by
  intro k' hk'
  by_cases hk : k' = k
  · subst hk
    unfold InvertedIndex.remove at hk'
    dsimp only at hk'
    split at hk'
    · rw [lookup_erase] at hk'
      cases hk'
    · next hrest =>
      rw [lookup_insert] at hk'
      rw [Option.some.inj hk'] at hrest
      exact hrest rfl
  · rw [lookup_remove_of_ne n hk] at hk'
    exact h k' hk'

/-! ## One name under several keys -/

/-- The row is put under each key of a list, which may name a key more than once. -/
theorem find_foldl_put (ks : List K) (k : K) (n n' : N) (v : V) (t : InvertedIndex K N V) :
    (ks.foldl (put n v) t).find k n' =
      if k ∈ ks ∧ n' = n then some ((t.find k n).getD v) else t.find k n' := by
  induction ks generalizing t with
  | nil => simp
  | cons key ks ih =>
    rw [List.foldl_cons, ih, find_put, find_put]
    by_cases hn : n' = n
    · subst hn
      by_cases hkey : k = key
      · subst hkey
        simp
      · by_cases hk : k ∈ ks
        · simp [hkey, hk]
        · simp [hkey, hk]
    · simp [hn]

theorem NoneEmpty.foldl_put (h : NoneEmpty t) (ks : List K) (n : N) (v : V) :
    NoneEmpty (ks.foldl (InvertedIndex.put n v) t) := by
  induction ks generalizing t with
  | nil => exact h
  | cons key ks ih => exact ih (h.put n v key)

theorem find_foldl_remove (ks : List K) (k : K) (n n' : N) (t : InvertedIndex K N V) :
    (ks.foldl (remove n) t).find k n' = if k ∈ ks ∧ n' = n then none else t.find k n' := by
  induction ks generalizing t with
  | nil => simp
  | cons key ks ih =>
    rw [List.foldl_cons, ih, find_remove]
    by_cases hn : n' = n
    · by_cases hkey : k = key
      · simp [hkey, hn]
      · simp [hkey]
    · simp [hn]

theorem NoneEmpty.foldl_remove (h : NoneEmpty t) (ks : List K) (n : N) :
    NoneEmpty (ks.foldl (InvertedIndex.remove n) t) := by
  induction ks generalizing t with
  | nil => exact h
  | cons key ks ih => exact ih (h.remove n key)

theorem lookup_foldl_remove (n : N) (h : k ∉ ks) :
    (ks.foldl (remove n) t).lookup k = t.lookup k := by
  induction ks generalizing t with
  | nil => rfl
  | cons key ks ih =>
    rw [List.mem_cons, not_or] at h
    rw [List.foldl_cons, ih h.2, lookup_remove_of_ne n h.1]

end InvertedIndex

end Phoenixcoin.Lib
