import Mathlib.Data.Finset.Card

/-!
# Forests given by parent links

A forest is a partial function `parent`. A second partial function `next` links the path from
a root down to a chosen tip; the tip moves to a child with `push` and back to its parent with
`pop`.
-/

set_option autoImplicit false

namespace Phoenixcoin.Lib

section Forest

variable {K : Type} (parent next : K → Option K)

/-- `b` is `a` or is reached from `a` by parent links. -/
abbrev Above : K → K → Prop := Relation.ReflTransGen fun a b => parent a = some b

/-- The rank grows by one from a parent to its child. -/
def Graded (rank : K → ℕ) : Prop := ∀ a b, parent a = some b → rank a = rank b + 1

/-- `next` leads down to the tip and nowhere else. -/
def Linked (tip : Option K) : Prop :=
  ∀ a b, next a = some b ↔ (∃ t, tip = some t ∧ Above parent t b) ∧ parent b = some a

/-- `next` links nodes on the way down to the tip only, but the way need not be complete. -/
def LinkedWithin (tip : Option K) : Prop :=
  ∀ a b, next a = some b → parent b = some a ∧ ∃ t, tip = some t ∧ Above parent t b

/-- The nodes from `a` on, up to but without `b`. -/
inductive Path : K → List K → K → Prop where
  | nil (a : K) : Path a [] a
  | cons {a p b : K} {l : List K} : parent a = some p → Path p l b → Path a (a :: l) b

/-- The nodes below `b`, down to `a`: a path in the other direction. -/
inductive Descent : K → List K → K → Prop where
  | nil (b : K) : Descent b [] b
  | cons {b c a : K} {l : List K} : parent c = some b → Descent c l a → Descent b (c :: l) a

variable {parent next} {rank : K → ℕ}

/-! ## Ranks -/

variable {a b p c t : K} {l : List K}

theorem Above.rank_le (hgraded : Graded parent rank) (h : Above parent a b) : rank b ≤ rank a := by
  induction h with
  | refl => exact le_rfl
  | tail _ hbc ih =>
    have := hgraded _ _ hbc
    omega

theorem Above.cases (h : Above parent a b) : a = b ∨ ∃ p, parent a = some p ∧ Above parent p b :=
  Relation.ReflTransGen.cases_head h

theorem Above.of_root (h : Above parent a b) (ha : parent a = none) : a = b := by
  rcases h.cases with rfl | ⟨p, hp, -⟩
  · rfl
  · cases ha.symm.trans hp

theorem Above.of_parent (h : Above parent a b) (ha : parent a = some p) (hne : a ≠ b) :
    Above parent p b := by
  rcases h.cases with rfl | ⟨q, hq, hqb⟩
  · exact absurd rfl hne
  · cases ha.symm.trans hq
    exact hqb

/-- Of two nodes above a third, one is above the other. -/
theorem Above.total (hb : Above parent a b) (hc : Above parent a c) :
    Above parent b c ∨ Above parent c b := by
  apply Relation.ReflTransGen.total_of_right_unique _ hb hc
  intro x y z hy hz
  exact Option.some.inj (hy.symm.trans hz)

theorem Above.eq_of_rank_le (hgraded : Graded parent rank) (h : Above parent a b)
    (hrank : rank a ≤ rank b) : a = b := by
  rcases h.cases with rfl | ⟨p, hp, hpb⟩
  · rfl
  · have := hgraded _ _ hp
    have := hpb.rank_le hgraded
    omega

/-- No node is above its own child. -/
theorem Above.not_parent (hgraded : Graded parent rank) (h : Above parent a b)
    (hb : parent b = some c) (hca : Above parent c a) : False := by
  have := hgraded _ _ hb
  have := h.rank_le hgraded
  have := hca.rank_le hgraded
  omega

/-- A forest whose nodes are a finite set has no more ranks than nodes. -/
theorem rank_lt_card [DecidableEq K] (hgraded : Graded parent rank) {nodes : Finset K}
    (hclosed : ∀ a ∈ nodes, ∀ p, parent a = some p → p ∈ nodes)
    (hroot : ∀ a ∈ nodes, parent a = none → rank a = 0) (ha : a ∈ nodes) :
    rank a < nodes.card := by
  have hall : ∀ n, ∀ a ∈ nodes, rank a = n → Finset.range (n + 1) ⊆ nodes.image rank := by
    intro n
    induction n with
    | zero =>
      intro a ha hrank
      rw [Finset.range_one, Finset.singleton_subset_iff]
      exact Finset.mem_image.mpr ⟨a, ha, hrank⟩
    | succ n ih =>
      intro a ha hrank
      cases hp : parent a with
      | none =>
        have := hroot a ha hp
        omega
      | some p =>
        have hrankp : rank p = n := by
          have := hgraded a p hp
          omega
        rw [Finset.range_add_one, Finset.insert_subset_iff]
        exact ⟨Finset.mem_image.mpr ⟨a, ha, hrank⟩, ih p (hclosed a ha p hp) hrankp⟩
  have hcard := Finset.card_le_card (hall _ a ha rfl)
  rw [Finset.card_range] at hcard
  exact hcard.trans Finset.card_image_le

/-- More parent links lead to more nodes. -/
theorem Above.mono {parent' : K → Option K}
    (hparent : ∀ a p, parent a = some p → parent' a = some p) (h : Above parent a b) :
    Above parent' a b :=
  Relation.ReflTransGen.mono hparent a b h

/-! ## New leaves -/

section Leaf

variable {parent' : K → Option K} {h : K}

/-- A node that is nobody's parent is not reached from another node. -/
theorem Above.leaf (hagree : ∀ a, a ≠ h → parent' a = parent a) (hfresh : ∀ a, parent a ≠ some h)
    (ha : a ≠ h) :
    Above parent' a b ↔ Above parent a b := by
  constructor
  · intro hab
    induction hab using Relation.ReflTransGen.head_induction_on with
    | refl => exact .refl
    | head hac _ ih =>
      rw [hagree _ ha] at hac
      exact .head hac (ih fun hc => hfresh _ (hc ▸ hac))
  · intro hab
    induction hab using Relation.ReflTransGen.head_induction_on with
    | refl => exact .refl
    | head hac _ ih =>
      exact .head ((hagree _ ha).trans hac) (ih fun hc => hfresh _ (hc ▸ hac))

theorem Above.ne_leaf (hfresh : ∀ a, parent a ≠ some h) (ha : a ≠ h) (hab : Above parent a b) :
    b ≠ h := by
  rcases Relation.ReflTransGen.cases_tail hab with rfl | ⟨c, -, hcb⟩
  · exact ha
  · exact fun hb => hfresh c (hb ▸ hcb)

/-- A new leaf outside the path to the tip changes nothing. -/
theorem Linked.leaf {tip : Option K} (hlinked : Linked parent next tip)
    (hagree : ∀ a, a ≠ h → parent' a = parent a) (hfresh : ∀ a, parent a ≠ some h)
    (htip : tip ≠ some h) : Linked parent' next tip := by
  intro a b
  rw [hlinked a b]
  constructor
  · rintro ⟨⟨t, rfl, htb⟩, hb⟩
    have ht : t ≠ h := fun heq => htip (heq ▸ rfl)
    exact ⟨⟨t, rfl, (Above.leaf hagree hfresh ht).mpr htb⟩,
      (hagree b (htb.ne_leaf hfresh ht)).trans hb⟩
  · rintro ⟨⟨t, rfl, htb⟩, hb⟩
    have ht : t ≠ h := fun heq => htip (heq ▸ rfl)
    have htb' := (Above.leaf hagree hfresh ht).mp htb
    exact ⟨⟨t, rfl, htb'⟩, (hagree b (htb'.ne_leaf hfresh ht)).symm.trans hb⟩

theorem LinkedWithin.leaf {tip : Option K} (hlinked : LinkedWithin parent next tip)
    (hagree : ∀ a, a ≠ h → parent' a = parent a) (hfresh : ∀ a, parent a ≠ some h)
    (htip : tip ≠ some h) : LinkedWithin parent' next tip := by
  intro a b hab
  obtain ⟨hb, t, rfl, htb⟩ := hlinked a b hab
  have ht : t ≠ h := fun heq => htip (heq ▸ rfl)
  exact ⟨(hagree b (htb.ne_leaf hfresh ht)).trans hb, t, rfl, (Above.leaf hagree hfresh ht).mpr htb⟩

end Leaf

/-! ## Moving the tip -/

theorem Linked.tip_next (hgraded : Graded parent rank) (h : Linked parent next (some t)) :
    next t = none := by
  rw [Option.eq_none_iff_forall_ne_some]
  intro b hb
  obtain ⟨⟨t', ht', habove⟩, hparent⟩ := (h t b).mp hb
  cases ht'
  exact habove.not_parent hgraded hparent .refl

/-- The links lead from every node above the tip down to the tip. -/
theorem Linked.reaches {r : K} (h : Linked parent next (some t)) (hr : Above parent t r) :
    Relation.ReflTransGen (fun a b => next a = some b) r t := by
  induction hr with
  | refl => exact .refl
  | tail hab hbc ih => exact .head ((h _ _).mpr ⟨⟨t, rfl, hab⟩, hbc⟩) ih

variable [DecidableEq K]

/-- The tip moves to a child. -/
theorem Linked.push (hgraded : Graded parent rank) {t' : K} (h : Linked parent next (some t))
    (hparent : parent t' = some t) :
    Linked parent (fun a => if a = t then some t' else next a) (some t') := by
  intro a b
  have hold := h a b
  by_cases ha : a = t
  · subst ha
    simp only [if_true, Option.some.injEq, exists_eq_left']
    constructor
    · rintro rfl
      exact ⟨.refl, hparent⟩
    · rintro ⟨habove, hb⟩
      rcases habove.cases with rfl | ⟨p, hp, hpb⟩
      · rfl
      · cases hparent.symm.trans hp
        exact (hpb.not_parent hgraded hb .refl).elim
  · simp only [if_neg ha, hold, Option.some.injEq, exists_eq_left']
    refine and_congr_left fun hb => ⟨fun habove => .head hparent habove, fun habove => ?_⟩
    rcases habove.cases with rfl | ⟨p, hp, hpb⟩
    · cases hparent.symm.trans hb
      exact absurd rfl ha
    · cases hparent.symm.trans hp
      exact hpb

omit [DecidableEq K] in
/-- The first tip is a root. -/
theorem Linked.root (h : Linked parent next none) (hroot : parent t = none) :
    Linked parent next (some t) := by
  intro a b
  rw [h a b]
  constructor
  · rintro ⟨⟨_, ht, _⟩, _⟩
    cases ht
  · rintro ⟨⟨t', ht, habove⟩, hb⟩
    cases ht
    rcases habove.cases with rfl | ⟨p, hp, -⟩
    · cases hroot.symm.trans hb
    · cases hroot.symm.trans hp

/-- The tip moves back to its parent. -/
theorem Linked.pop (hgraded : Graded parent rank) (h : Linked parent next (some t))
    (hparent : parent t = some p) :
    Linked parent (fun a => if a = p then none else next a) (some p) := by
  intro a b
  have hold := h a b
  by_cases ha : a = p
  · subst ha
    simp only [if_true, Option.some.injEq, exists_eq_left', reduceCtorEq, false_iff, not_and]
    exact fun habove hb => habove.not_parent hgraded hb .refl
  · simp only [if_neg ha, hold, Option.some.injEq, exists_eq_left']
    refine and_congr_left fun hb => ⟨fun habove => ?_, fun habove => .head hparent habove⟩
    rcases habove.cases with rfl | ⟨p', hp, hpb⟩
    · cases hparent.symm.trans hb
      exact absurd rfl ha
    · cases hparent.symm.trans hp
      exact hpb

/-! ## Moving the tip when links may be missing -/

section Within

omit [DecidableEq K]

/-- A linked node is above the tip. -/
theorem LinkedWithin.above {tip : Option K} (h : LinkedWithin parent next tip)
    (hab : next a = some b) : ∃ t, tip = some t ∧ Above parent t a := by
  obtain ⟨hb, t, ht, htb⟩ := h a b hab
  exact ⟨t, ht, htb.tail hb⟩

/-- The tip may move down without any link. -/
theorem LinkedWithin.descend {t' : K} (h : LinkedWithin parent next (some t))
    (ht : Above parent t' t) : LinkedWithin parent next (some t') := by
  intro a b hab
  obtain ⟨hb, x, hx, hxb⟩ := h a b hab
  cases hx
  exact ⟨hb, t', rfl, ht.trans hxb⟩

end Within

/-- The tip, if there is one, moves to a child. -/
theorem LinkedWithin.push {tip : Option K} {t' : K} (h : LinkedWithin parent next tip)
    (htip : ∀ x, tip = some x → x = t) (hparent : parent t' = some t) :
    LinkedWithin parent (fun a => if a = t then some t' else next a) (some t') := by
  intro a b hab
  dsimp only at hab
  by_cases ha : a = t
  · rw [if_pos ha] at hab
    cases hab
    exact ⟨ha ▸ hparent, t', rfl, .refl⟩
  · rw [if_neg ha] at hab
    obtain ⟨hb, x, hx, hxb⟩ := h a b hab
    exact ⟨hb, t', rfl, .head hparent (htip x hx ▸ hxb)⟩

/-- The tip moves back to its parent. -/
theorem LinkedWithin.pop (h : LinkedWithin parent next (some t)) (hparent : parent t = some p) :
    LinkedWithin parent (fun a => if a = p then none else next a) (some p) := by
  intro a b hab
  dsimp only at hab
  by_cases ha : a = p
  · rw [if_pos ha] at hab
    cases hab
  · rw [if_neg ha] at hab
    obtain ⟨hb, x, hx, hxb⟩ := h a b hab
    cases hx
    rcases hxb.cases with rfl | ⟨q, hq, hqb⟩
    · cases hparent.symm.trans hb
      exact absurd rfl ha
    · cases hparent.symm.trans hq
      exact ⟨hb, p, rfl, hqb⟩

/-! ## Paths -/

omit [DecidableEq K]

theorem Descent.concat (h : Descent parent b l a) (hc : parent c = some a) :
    Descent parent b (l ++ [c]) c := by
  induction h with
  | nil b => exact .cons hc (.nil c)
  | cons hp _ ih => exact .cons hp (ih hc)

/-- A linked node is above the tip. -/
theorem Path.above (h : Path parent a l b) : Above parent a b := by
  induction h with
  | nil => exact .refl
  | cons hp _ ih => exact .head hp ih

theorem Path.reverse (h : Path parent a l b) : Descent parent b l.reverse a := by
  induction h with
  | nil a => exact .nil a
  | cons hp _ ih =>
    rw [List.reverse_cons]
    exact ih.concat hp

theorem Descent.mem_or_above {x : K} (h : Descent parent b l a) (hx : Above parent a x) :
    x ∈ l ∨ Above parent b x := by
  induction h with
  | nil => exact .inr hx
  | cons hp hrest ih =>
    rcases ih hx with hmem | habove
    · exact .inl (List.mem_cons_of_mem _ hmem)
    · rcases habove.cases with rfl | ⟨p, hp', hrest'⟩
      · exact .inl List.mem_cons_self
      · cases hp.symm.trans hp'
        exact .inr hrest'

/-- A linked node is above the tip. -/
theorem Descent.above (h : Descent parent b l a) : Above parent a b := by
  induction h with
  | nil => exact .refl
  | cons hp _ ih => exact .tail ih hp

end Forest

end Phoenixcoin.Lib
