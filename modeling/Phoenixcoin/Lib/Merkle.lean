import Mathlib.Data.List.Nodup
import Mathlib.Data.Prod.Basic

/-!
# Hash trees that duplicate the last node

A hash tree over a list, level by level: adjacent nodes are hashed in pairs, and a node without a
neighbour is paired with itself. Because of that, different lists of leaves can have one root.
When the hash of a pair is injective, such lists still have the same members and one starts with
the other, so lists without repetition are determined by their root.
-/

set_option autoImplicit false

namespace Phoenixcoin.Lib.Merkle

open List Function

variable {α : Type} (H : α → α → α)

/-- The pairs of a level; the last node of an odd one is paired with itself. -/
def adjacentPairs : List α → List (α × α)
  | [] => []
  | [a] => [(a, a)]
  | a :: b :: l => (a, b) :: adjacentPairs l

/-- The level above. -/
def levelUp (l : List α) : List α := (adjacentPairs l).map fun p => H p.1 p.2

/-- The levels of a tree, from the leaves to the root; the number of leaves is fuel enough. -/
def levels : ℕ → List α → List (List α)
  | 0, l => [l]
  | fuel + 1, l => if l.length ≤ 1 then [l] else l :: levels fuel (levelUp H l)

/-- The top level of the tree over `l`. -/
def top : ℕ → List α → List α
  | 0, l => l
  | fuel + 1, l => if l.length ≤ 1 then l else top fuel (levelUp H l)

theorem length_adjacentPairs (l : List α) : (adjacentPairs l).length = (l.length + 1) / 2 := by
  induction l using adjacentPairs.induct with
  | case1 => simp [adjacentPairs]
  | case2 a => simp [adjacentPairs]
  | case3 a b l ih =>
    rw [adjacentPairs, length_cons, length_cons, length_cons]
    omega

@[simp]
theorem length_levelUp (l : List α) : (levelUp H l).length = (l.length + 1) / 2 := by
  rw [levelUp, length_map, length_adjacentPairs]

theorem getLast_levels (fuel : ℕ) (l : List α) :
    (levels H fuel l).getLast? = some (top H fuel l) := by
  induction fuel generalizing l with
  | zero => rfl
  | succ fuel ih =>
    unfold levels top
    split
    · rfl
    · have hnext := ih (levelUp H l)
      rw [getLast?_cons, hnext]
      rfl

variable {l a b : List α}

/-- As much fuel as there are leaves leads to one node. -/
theorem length_top (fuel : ℕ) (hfuel : l.length ≤ fuel + 1) (h : l ≠ []) :
    (top H fuel l).length = 1 := by
  have hpos : 0 < l.length := length_pos_of_ne_nil h
  induction fuel generalizing l with
  | zero =>
    rw [top]
    omega
  | succ fuel ih =>
    unfold top
    split
    · omega
    · have hup := length_levelUp H l
      apply ih
      · omega
      · intro hnil
        rw [hnil, length_nil] at hup
        omega
      · omega

/-! ## Lists with one level above -/

/-- The same members, and one list starts with the other. -/
def Alike (a b : List α) : Prop := (a <+: b ∨ b <+: a) ∧ ∀ x, x ∈ a ↔ x ∈ b

theorem Alike.symm (h : Alike a b) : Alike b a :=
  ⟨h.1.symm, fun x => (h.2 x).symm⟩

theorem mem_adjacentPairs {x : α} : x ∈ l ↔ ∃ p ∈ adjacentPairs l, x = p.1 ∨ x = p.2 := by
  induction l using adjacentPairs.induct with
  | case1 => simp [adjacentPairs]
  | case2 a => simp [adjacentPairs]
  | case3 a b l ih =>
    rw [adjacentPairs, List.mem_cons, List.mem_cons, ih, exists_mem_cons_iff, or_assoc]

/-- Pairs that start other pairs come from lists that start one another. -/
theorem prefix_of_adjacentPairs (h : adjacentPairs a <+: adjacentPairs b) : a <+: b ∨ b <+: a := by
  induction a using adjacentPairs.induct generalizing b with
  | case1 => exact Or.inl List.nil_prefix
  | case2 x =>
    match b, h with
    | [], h => exact absurd (prefix_nil.mp h) (cons_ne_nil _ _)
    | [y], h =>
      obtain ⟨rfl, -⟩ := Prod.mk.inj (cons_prefix_cons.mp h).1
      exact Or.inl (prefix_refl _)
    | y :: z :: rest, h =>
      obtain ⟨rfl, -⟩ := Prod.mk.inj (cons_prefix_cons.mp h).1
      exact Or.inl ⟨z :: rest, rfl⟩
  | case3 x y l ih =>
    match b, h with
    | [], h => exact absurd (prefix_nil.mp h) (cons_ne_nil _ _)
    | [z], h =>
      obtain ⟨hpair, -⟩ := cons_prefix_cons.mp h
      obtain ⟨rfl, -⟩ := Prod.mk.inj hpair
      exact Or.inr ⟨y :: l, rfl⟩
    | z :: w :: rest, h =>
      obtain ⟨hpair, hrest⟩ := cons_prefix_cons.mp h
      obtain ⟨rfl, rfl⟩ := Prod.mk.inj hpair
      rcases ih hrest with hle | hge
      · exact Or.inl (cons_prefix_cons.mpr ⟨rfl, cons_prefix_cons.mpr ⟨rfl, hle⟩⟩)
      · exact Or.inr (cons_prefix_cons.mpr ⟨rfl, cons_prefix_cons.mpr ⟨rfl, hge⟩⟩)

variable {H}

theorem Alike.of_levelUp (hinj : Injective2 H) (h : Alike (levelUp H a) (levelUp H b)) :
    Alike a b := by
  have hpair : Injective fun p : α × α => H p.1 p.2 := by
    intro p q heq
    obtain ⟨h1, h2⟩ := hinj heq
    exact Prod.ext h1 h2
  have hmem (p : α × α) : p ∈ adjacentPairs a ↔ p ∈ adjacentPairs b := by
    have hup := h.2 (H p.1 p.2)
    rwa [levelUp, levelUp, List.mem_map_of_injective hpair, List.mem_map_of_injective hpair] at hup
  constructor
  · rcases h.1 with hle | hge
    · exact prefix_of_adjacentPairs ((prefix_map_iff_of_injective hpair).mp hle)
    · exact (prefix_of_adjacentPairs ((prefix_map_iff_of_injective hpair).mp hge)).symm
  · intro x
    rw [mem_adjacentPairs, mem_adjacentPairs]
    simp [hmem]

/-- Lists without repetition that are alike are equal. -/
theorem Alike.eq_of_nodup (h : Alike a b) (ha : a.Nodup) (hb : b.Nodup) : a = b := by
  have hgrow {a b : List α} (hinit : a <+: b) (hmem : ∀ x ∈ b, x ∈ a) (hb : b.Nodup) : a = b := by
    obtain ⟨t, rfl⟩ := hinit
    have hempty : t = [] := by
      rw [eq_nil_iff_forall_not_mem]
      intro x hx
      have hdisjoint := disjoint_of_nodup_append hb
      exact hdisjoint (hmem x (mem_append_right _ hx)) hx
    rw [hempty, append_nil]
  rcases h.1 with hle | hge
  · exact hgrow hle (fun x hx => (h.2 x).mpr hx) hb
  · exact (hgrow hge (fun x hx => (h.2 x).mp hx) ha).symm

/-- No leaf is the hash of a pair. -/
def Leaves (H : α → α → α) (l : List α) : Prop := ∀ x ∈ l, ∀ a b, x ≠ H a b

theorem not_alike_levelUp {m : List α} (hl : Leaves H l) (hne : l ≠ []) :
    ¬ Alike l (levelUp H m) := by
  intro h
  obtain ⟨x, hx⟩ := exists_mem_of_ne_nil l hne
  obtain ⟨p, -, heq⟩ := List.mem_map.mp ((h.2 x).mp hx)
  exact hl x hx p.1 p.2 heq.symm

/-- Trees with one top have leaves that are alike. -/
theorem alike_of_top (hinj : Injective2 H) (fuel fuel' : ℕ) {m : List α} (hl : Leaves H l)
    (hm : Leaves H m) (hlne : l ≠ []) (hmne : m ≠ []) (h : Alike (top H fuel l) (top H fuel' m)) :
    Alike l m := by
  -- A run of the tree over `l` is a number of levels; the same for `m`.
  have hiterate (fuel : ℕ) (l : List α) : ∃ n, top H fuel l = (levelUp H)^[n] l := by
    induction fuel generalizing l with
    | zero => exact ⟨0, rfl⟩
    | succ fuel ih =>
      unfold top
      split
      · exact ⟨0, rfl⟩
      · obtain ⟨n, hn⟩ := ih (levelUp H l)
        exact ⟨n + 1, by rw [hn, iterate_succ_apply]⟩
  -- The two trees are taken down together; the one that ends first ends at leaves.
  have hdown (n k : ℕ) : Alike ((levelUp H)^[n] l) ((levelUp H)^[k] m) → Alike l m := by
    induction n generalizing k with
    | zero =>
      intro hal
      cases k with
      | zero => exact hal
      | succ k =>
        rw [iterate_succ_apply'] at hal
        exact absurd hal (not_alike_levelUp hl hlne)
    | succ n ih =>
      intro hal
      cases k with
      | zero =>
        rw [iterate_succ_apply'] at hal
        exact absurd hal.symm (not_alike_levelUp hm hmne)
      | succ k =>
        rw [iterate_succ_apply', iterate_succ_apply'] at hal
        exact ih k (hal.of_levelUp hinj)
  obtain ⟨n, hn⟩ := hiterate fuel l
  obtain ⟨k, hk⟩ := hiterate fuel' m
  rw [hn, hk] at h
  exact hdown n k h

end Phoenixcoin.Lib.Merkle
