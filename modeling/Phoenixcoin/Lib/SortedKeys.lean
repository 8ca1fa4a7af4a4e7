import Mathlib.Data.List.Sort
import Phoenixcoin.Lib.Table

/-!
# The keys of a table in order

The loops over an ordered map visit its keys from the lowest to the greatest.
-/

set_option autoImplicit false

namespace Phoenixcoin.Lib.Table

open List Finmap

variable {K V : Type} [LinearOrder K]

/-- The keys of a table, the lowest first. -/
def sortedKeys (t : Table K V) : List K :=
  Quotient.liftOn t.entries (fun entries => (entries.map Sigma.fst).insertionSort (· ≤ ·))
    fun _ _ h => Perm.eq_of_pairwise (fun _ _ _ _ => le_antisymm)
      (pairwise_insertionSort (· ≤ ·) _)
      (pairwise_insertionSort (· ≤ ·) _)
      (((perm_insertionSort (· ≤ ·) _).trans (h.map Sigma.fst)).trans
        (perm_insertionSort (· ≤ ·) _).symm)

variable {k : K} {t : Table K V} {v : V}

theorem mem_sortedKeys : k ∈ sortedKeys t ↔ (t.lookup k).isSome := by
  rw [lookup_isSome]
  induction t using induction_on with
  | _ entries =>
    change k ∈ (entries.entries.map Sigma.fst).insertionSort (· ≤ ·) ↔ k ∈ entries.keys
    rw [mem_insertionSort]
    rfl

theorem nodup_sortedKeys (t : Table K V) : (sortedKeys t).Nodup := by
  induction t using induction_on with
  | _ entries =>
    change ((entries.entries.map Sigma.fst).insertionSort (· ≤ ·)).Nodup
    rw [(perm_insertionSort _ _).nodup_iff]
    exact entries.nodupKeys

theorem pairwise_sortedKeys (t : Table K V) : (sortedKeys t).Pairwise (· ≤ ·) := by
  induction t using induction_on with
  | _ entries => exact pairwise_insertionSort (· ≤ ·) _

/-- Tables with the same keys list them in the same order. -/
theorem sortedKeys_congr {V' : Type} {t' : Table K V'}
    (h : ∀ k, (t.lookup k).isSome ↔ (t'.lookup k).isSome) : sortedKeys t = sortedKeys t' := by
  have hmem (k : K) : k ∈ sortedKeys t ↔ k ∈ sortedKeys t' := by
    rw [mem_sortedKeys, mem_sortedKeys]
    exact h k
  exact ((perm_ext_iff_of_nodup (nodup_sortedKeys t) (nodup_sortedKeys t')).mpr
    hmem).eq_of_pairwise (fun _ _ _ _ => le_antisymm) (pairwise_sortedKeys t)
    (pairwise_sortedKeys t')

/-- A row that comes after all others. -/
theorem sortedKeys_insert_of_lt (h : ∀ k', (t.lookup k').isSome → k' < k) :
    sortedKeys (insert k v t) = sortedKeys t ++ [k] := by
  have hlt : ∀ k' ∈ sortedKeys t, k' < k := fun k' hk' => h k' (mem_sortedKeys.mp hk')
  have hnodup : (sortedKeys t ++ [k]).Nodup := by
    rw [nodup_append]
    refine ⟨nodup_sortedKeys t, nodup_singleton k, ?_⟩
    intro k' hk' other hother
    rw [mem_singleton.mp hother]
    exact (hlt k' hk').ne
  have hsorted : (sortedKeys t ++ [k]).Pairwise (· ≤ ·) := by
    rw [pairwise_append]
    refine ⟨pairwise_sortedKeys t, pairwise_singleton _ k, ?_⟩
    intro k' hk' other hother
    rw [mem_singleton.mp hother]
    exact (hlt k' hk').le
  have hmem (k' : K) : k' ∈ sortedKeys (insert k v t) ↔ k' ∈ sortedKeys t ++ [k] := by
    rw [mem_append, mem_sortedKeys, mem_sortedKeys, lookup_insert_ite]
    by_cases hk : k' = k <;> simp [hk]
  exact ((perm_ext_iff_of_nodup (nodup_sortedKeys _) hnodup).mpr hmem).eq_of_pairwise
    (fun _ _ _ _ => le_antisymm) (pairwise_sortedKeys _) hsorted

/-- The keys of a table with one row. -/
theorem sortedKeys_insert_empty : sortedKeys (insert k v (∅ : Table K V)) = [k] :=
  sortedKeys_insert_of_lt fun _ h => nomatch h

/-- The values of a table, those of the lowest keys first. -/
theorem values_insert_of_lt (h : ∀ k', (t.lookup k').isSome → k' < k) :
    (sortedKeys (insert k v t)).filterMap (insert k v t).lookup =
      (sortedKeys t).filterMap t.lookup ++ [v] := by
  rw [sortedKeys_insert_of_lt h, filterMap_append]
  have hold : (sortedKeys t).filterMap (insert k v t).lookup =
      (sortedKeys t).filterMap t.lookup := by
    apply filterMap_congr
    intro k' hk'
    rw [lookup_insert_ite, if_neg (h k' (mem_sortedKeys.mp hk')).ne]
  rw [hold]
  simp

/-- The rows of a table, those of the lowest keys first. -/
def sortedEntries (t : Table K V) : List (K × V) :=
  (sortedKeys t).filterMap fun k => (t.lookup k).map fun v => (k, v)

theorem mem_sortedEntries {entry : K × V} :
    entry ∈ sortedEntries t ↔ t.lookup entry.1 = some entry.2 := by
  rw [sortedEntries, mem_filterMap]
  constructor
  · rintro ⟨k, -, hlookup⟩
    obtain ⟨v, hv, rfl⟩ := Option.map_eq_some_iff.mp hlookup
    exact hv
  · intro hlookup
    refine ⟨entry.1, mem_sortedKeys.mpr (Option.isSome_of_eq_some hlookup), ?_⟩
    rw [hlookup]
    rfl

theorem map_snd_sortedEntries (t : Table K V) :
    (sortedEntries t).map Prod.snd = (sortedKeys t).filterMap t.lookup := by
  rw [sortedEntries, map_filterMap]
  apply filterMap_congr
  intro k _
  cases t.lookup k with
  | none => rfl
  | some v => rfl

theorem map_fst_sortedEntries (t : Table K V) : (sortedEntries t).map Prod.fst = sortedKeys t := by
  rw [sortedEntries, map_filterMap]
  have hkeys : ∀ k ∈ sortedKeys t, ((t.lookup k).map fun v => (k, v)).map Prod.fst = some k := by
    intro k hk
    obtain ⟨v, hv⟩ := Option.isSome_iff_exists.mp (mem_sortedKeys.mp hk)
    rw [hv]
    rfl
  rw [filterMap_congr hkeys, filterMap_some]

/-- A row that is replaced stays at its place. -/
theorem sortedEntries_insert {v' : V} {l₁ l₂ : List (K × V)}
    (h : sortedEntries t = l₁ ++ (k, v) :: l₂) :
    sortedEntries (insert k v' t) = l₁ ++ (k, v') :: l₂ := by
  have hmem : (k, v) ∈ sortedEntries t := by
    rw [h]
    exact mem_append_right l₁ mem_cons_self
  have hlookup : t.lookup k = some v := mem_sortedEntries.mp hmem
  have hkeys : sortedKeys (insert k v' t) = sortedKeys t := by
    apply sortedKeys_congr
    intro k'
    rw [lookup_insert_ite]
    split
    · next hk => rw [hk, hlookup]; exact Iff.rfl
    · exact Iff.rfl
  have hnodup := nodup_sortedKeys t
  rw [← map_fst_sortedEntries, h, map_append] at hnodup
  have hother : ∀ entry ∈ l₁ ++ l₂, entry.1 ≠ k := by
    intro entry hentry hk
    have hperm := (perm_middle.nodup_iff.mp hnodup)
    rw [nodup_cons, ← map_append] at hperm
    exact hperm.1 (mem_map.mpr ⟨entry, hentry, hk⟩)
  have hmap : sortedEntries (insert k v' t) =
      (sortedEntries t).map fun entry => if entry.1 = k then (k, v') else entry := by
    unfold sortedEntries
    rw [hkeys, map_filterMap]
    apply filterMap_congr
    intro k' _
    rw [lookup_insert_ite]
    by_cases hk : k' = k
    · rw [hk, hlookup]
      simp
    · rw [if_neg hk]
      cases t.lookup k' with
      | none => rfl
      | some w => simp [hk]
  rw [hmap, h, map_append, map_cons, if_pos rfl]
  have hsame (l : List (K × V)) (hl : ∀ entry ∈ l, entry.1 ≠ k) :
      l.map (fun entry => if entry.1 = k then (k, v') else entry) = l := by
    rw [map_congr_left fun entry hentry => if_neg (hl entry hentry)]
    exact map_id l
  rw [hsame l₁ fun entry hentry => hother entry (mem_append_left l₂ hentry),
    hsame l₂ fun entry hentry => hother entry (mem_append_right l₁ hentry)]

omit [LinearOrder K] in
/-- What a loop of insertions leaves in a table, where different items have different keys. -/
theorem lookup_foldl_insert [DecidableEq K] {A : Type} {key : A → K} {val : A → V} {l : List A}
    (hinj : ∀ a ∈ l, ∀ b ∈ l, key a = key b → a = b) (t : Table K V) (k : K) (v : V) :
    (l.foldl (fun t a => insert (key a) (val a) t) t).lookup k = some v ↔
      (∃ a ∈ l, key a = k ∧ val a = v) ∨ (∀ a ∈ l, key a ≠ k) ∧ t.lookup k = some v := by
  induction l generalizing t with
  | nil => simp
  | cons b l ih =>
    have hinj' : ∀ a ∈ l, ∀ b ∈ l, key a = key b → a = b := fun a ha c hc =>
      hinj a (mem_cons_of_mem b ha) c (mem_cons_of_mem b hc)
    rw [foldl_cons, ih hinj', lookup_insert_ite]
    simp only [mem_cons, exists_eq_or_imp, forall_eq_or_imp]
    by_cases hk : k = key b
    · subst hk
      rw [if_pos rfl, Option.some.injEq]
      constructor
      · rintro (⟨a, ha, hkey, hval⟩ | ⟨_, hval⟩)
        · exact Or.inl (Or.inr ⟨a, ha, hkey, hval⟩)
        · exact Or.inl (Or.inl ⟨rfl, hval⟩)
      · rintro ((⟨_, hval⟩ | ⟨a, ha, hkey, hval⟩) | ⟨⟨hne, _⟩, _⟩)
        · by_cases hlast : ∃ a ∈ l, key a = key b
          · obtain ⟨a, ha, hkey⟩ := hlast
            have hab := hinj a (mem_cons_of_mem b ha) b mem_cons_self hkey
            exact Or.inl ⟨a, ha, hkey, by rw [hab, hval]⟩
          · exact Or.inr ⟨fun a ha hkey => hlast ⟨a, ha, hkey⟩, hval⟩
        · exact Or.inl ⟨a, ha, hkey, hval⟩
        · exact absurd rfl hne
    · rw [if_neg hk]
      have hk' : ¬ key b = k := fun h => hk h.symm
      simp [hk']

end Phoenixcoin.Lib.Table
