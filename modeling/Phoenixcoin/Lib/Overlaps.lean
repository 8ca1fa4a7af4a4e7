import Mathlib.Data.Finset.Lattice.Fold

/-!
# Sets that overlap

Groups that share elements belong together. The components of a family of groups are disjoint
sets, and two elements stand in one of them if a chain of groups leads from one to the other. A new
group makes one component of itself and of the components that it hits, in whatever order the
groups come.
-/

set_option autoImplicit false

namespace Phoenixcoin.Lib

open Relation

variable {α : Type} {groups groups' parts parts' : Set (Finset α)} {group merged : Finset α}
  {a b c : α}

/-- Two elements stand in one of the sets. -/
def Together (sets : Set (Finset α)) (a b : α) : Prop := ∃ s ∈ sets, a ∈ s ∧ b ∈ s

/-- A chain of sets leads from one element to the other. -/
def Chained (sets : Set (Finset α)) : α → α → Prop := TransGen (Together sets)

theorem Together.symm (h : Together groups a b) : Together groups b a := by
  obtain ⟨s, hs, ha, hb⟩ := h
  exact ⟨s, hs, hb, ha⟩

theorem Chained.symm (h : Chained groups a b) : Chained groups b a := by
  induction h with
  | single h => exact TransGen.single h.symm
  | tail _ h ih => exact TransGen.head h.symm ih

theorem Chained.mono (h : Chained groups a b) (hsub : groups ⊆ groups') : Chained groups' a b := by
  refine TransGen.mono ?_ a b h
  rintro c d ⟨s, hs, hc, hd⟩
  exact ⟨s, hsub hs, hc, hd⟩

/-- The parts are the components of the groups. -/
structure Components (groups parts : Set (Finset α)) : Prop where
  disjoint : ∀ s ∈ parts, ∀ t ∈ parts, ∀ a, a ∈ s → a ∈ t → s = t
  together : ∀ a b, Together parts a b ↔ Chained groups a b

theorem Components.empty : Components (∅ : Set (Finset α)) ∅ where
  disjoint s hs := absurd hs (Set.notMem_empty s)
  together a b := by
    constructor
    · rintro ⟨s, hs, -⟩
      exact absurd hs (Set.notMem_empty s)
    · intro h
      cases h with
      | single h =>
        obtain ⟨s, hs, -⟩ := h
        exact absurd hs (Set.notMem_empty s)
      | tail _ h =>
        obtain ⟨s, hs, -⟩ := h
        exact absurd hs (Set.notMem_empty s)

/-- What a new group does: it takes the parts that it hits. -/
structure Merges (group merged : Finset α) (parts parts' : Set (Finset α)) : Prop where
  mem_merged : ∀ a, a ∈ merged ↔ a ∈ group ∨ ∃ s ∈ parts, (∃ c ∈ s, c ∈ group) ∧ a ∈ s
  mem_parts : ∀ s, s ∈ parts' ↔ s = merged ∨ s ∈ parts ∧ ∀ c ∈ s, c ∉ group

section

variable (h : Merges group merged parts parts') (hparts : Components groups parts)
include h hparts

/-- A part that was kept shares nothing with the new one. -/
theorem Merges.notMem_of_kept {s : Finset α} (hs : s ∈ parts)
    (hkept : ∀ c ∈ s, c ∉ group) (ha : a ∈ s) : a ∉ merged := by
  intro hmem
  rcases (h.mem_merged a).mp hmem with hgroup | ⟨t, ht, ⟨c, hc, hgroup⟩, hat⟩
  · exact hkept a ha hgroup
  · obtain rfl := hparts.disjoint s hs t ht a ha hat
    exact hkept c hc hgroup

/-- Every element of the new part is linked to one of the group. -/
theorem Merges.chained_group (ha : a ∈ merged) :
    ∃ c ∈ group, Chained (insert group groups) a c := by
  rcases (h.mem_merged a).mp ha with hgroup | ⟨s, hs, ⟨c, hc, hgroup⟩, has⟩
  · exact ⟨a, hgroup, TransGen.single ⟨group, Set.mem_insert _ _, hgroup, hgroup⟩⟩
  · have hchain := (hparts.together a c).mp ⟨s, hs, has, hc⟩
    exact ⟨c, hgroup, hchain.mono (Set.subset_insert _ _)⟩

theorem Merges.disjoint {s t : Finset α} (hs : s ∈ parts') (ht : t ∈ parts')
    (has : a ∈ s) (hat : a ∈ t) : s = t := by
  rcases (h.mem_parts s).mp hs with rfl | ⟨hsparts, hskept⟩
  · rcases (h.mem_parts t).mp ht with rfl | ⟨htparts, htkept⟩
    · rfl
    · exact absurd has (h.notMem_of_kept hparts htparts htkept hat)
  · rcases (h.mem_parts t).mp ht with rfl | ⟨htparts, htkept⟩
    · exact absurd hat (h.notMem_of_kept hparts hsparts hskept has)
    · exact hparts.disjoint s hsparts t htparts a has hat

end

theorem Components.merge (hparts : Components groups parts)
    (h : Merges group merged parts parts') : Components (insert group groups) parts' where
  disjoint s hs t ht a has hat := h.disjoint hparts hs ht has hat
  together a b := by
    have hnew : ∀ {a b : α}, a ∈ merged → b ∈ merged → Together parts' a b :=
      fun ha hb => ⟨merged, (h.mem_parts merged).mpr (Or.inl rfl), ha, hb⟩
    have hold : ∀ {a b : α}, Together parts a b → Together parts' a b := by
      rintro a b ⟨s, hs, ha, hb⟩
      by_cases hhit : ∃ c ∈ s, c ∈ group
      · exact hnew ((h.mem_merged a).mpr (Or.inr ⟨s, hs, hhit, ha⟩))
          ((h.mem_merged b).mpr (Or.inr ⟨s, hs, hhit, hb⟩))
      · refine ⟨s, (h.mem_parts s).mpr (Or.inr ⟨hs, ?_⟩), ha, hb⟩
        intro c hc hgroup
        exact hhit ⟨c, hc, hgroup⟩
    constructor
    · rintro ⟨s, hs, ha, hb⟩
      rcases (h.mem_parts s).mp hs with rfl | ⟨hsparts, -⟩
      · obtain ⟨c, hc, hac⟩ := h.chained_group hparts ha
        obtain ⟨d, hd, hbd⟩ := h.chained_group hparts hb
        have hcd : Together (insert group groups) c d := ⟨group, Set.mem_insert _ _, hc, hd⟩
        exact (hac.tail hcd).trans hbd.symm
      · exact ((hparts.together a b).mp ⟨s, hsparts, ha, hb⟩).mono (Set.subset_insert _ _)
    · intro hchain
      have htrans : ∀ {a b c : α}, Together parts' a b → Together parts' b c →
          Together parts' a c := by
        rintro a b c ⟨s, hs, ha, hb⟩ ⟨t, ht, hb', hc⟩
        -- both sets hold the element in the middle, so they are one
        obtain rfl := h.disjoint hparts hs ht hb hb'
        exact ⟨s, hs, ha, hc⟩
      have hstep : ∀ {a b : α}, Together (insert group groups) a b → Together parts' a b := by
        rintro a b ⟨s, hs, ha, hb⟩
        rcases Set.mem_insert_iff.mp hs with rfl | hs
        · exact hnew ((h.mem_merged a).mpr (Or.inl ha)) ((h.mem_merged b).mpr (Or.inl hb))
        · exact hold ((hparts.together a b).mpr (TransGen.single ⟨s, hs, ha, hb⟩))
      induction hchain with
      | single hab => exact hstep hab
      | tail _ hbc ih => exact htrans ih (hstep hbc)

end Phoenixcoin.Lib
