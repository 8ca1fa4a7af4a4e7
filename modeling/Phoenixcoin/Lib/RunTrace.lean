import Phoenixcoin.Lib.Run
import Mathlib.Algebra.Order.BigOperators.Group.List

/-!
# What the steps of a run put out

A run of fallible steps together with what every step puts out on the way, also the one that fails.
For a running sum of values that are not negative all that is put out stays below a bound if and
only if the sum does.
-/

set_option autoImplicit false

namespace Phoenixcoin.Lib

open Option List

section Trace

variable {S A O : Type} (f : S → A → Option S) (out : S → A → List O)

/-- What the steps of a run put out, in order. -/
def runTrace : S → List A → List O
  | _, [] => []
  | s, a :: l => out s a ++ (f s a).elim [] fun s' => runTrace s' l

variable {f out}

variable {l : List A} {o : O} {P : O → Prop} {s : S}

/-- What is put out is put out by a step that the run reaches. -/
theorem mem_runTrace : ∀ {s : S}, o ∈ runTrace f out s l ↔
    ∃ before a after s', l = before ++ a :: after ∧ before.foldlM f s = some s' ∧ o ∈ out s' a := by
  induction l with
  | nil => simp [runTrace]
  | cons a l ih =>
    intro s
    have hrest : (o ∈ (f s a).elim [] fun s' => runTrace f out s' l) ↔
        ∃ m, f s a = some m ∧ o ∈ runTrace f out m l := by
      cases f s a <;> simp
    rw [runTrace, mem_append, hrest]
    constructor
    · rintro (hnow | ⟨m, hm, hlater⟩)
      · exact ⟨[], a, l, s, rfl, rfl, hnow⟩
      · obtain ⟨before, b, after, s', rfl, hrun, ho⟩ := ih.mp hlater
        exact ⟨a :: before, b, after, s', rfl, foldlM_cons_eq_some.mpr ⟨m, hm, hrun⟩, ho⟩
    · rintro ⟨before, b, after, s', hl, hrun, ho⟩
      cases before with
      | nil =>
        obtain ⟨rfl, rfl⟩ := cons.inj hl
        cases hrun
        exact Or.inl ho
      | cons c before =>
        obtain ⟨rfl, rfl⟩ := cons.inj hl
        obtain ⟨m, hm, hrun⟩ := foldlM_cons_eq_some.mp hrun
        exact Or.inr ⟨m, hm, ih.mpr ⟨before, b, after, s', rfl, hrun, ho⟩⟩

/-- A property of all that is put out, step by step. -/
theorem forall_mem_runTrace :
    (∀ o ∈ runTrace f out s l, P o) ↔ ∀ before a after s', l = before ++ a :: after →
      before.foldlM f s = some s' → ∀ o ∈ out s' a, P o := by
  constructor
  · intro h before a after s' hl hrun o ho
    exact h o (mem_runTrace.mpr ⟨before, a, after, s', hl, hrun, ho⟩)
  · intro h o ho
    obtain ⟨before, a, after, s', hl, hrun, ho⟩ := mem_runTrace.mp ho
    exact h before a after s' hl hrun o ho

/-- A run that does not fail comes to every step. -/
theorem mem_runTrace_of_total {out : A → List O} (htotal : ∀ s, ∀ a ∈ l, (f s a).isSome) :
    o ∈ runTrace f (fun _ => out) s l ↔ ∃ a ∈ l, o ∈ out a := by
  induction l generalizing s with
  | nil => simp [runTrace]
  | cons a l ih =>
    obtain ⟨s', hs'⟩ := isSome_iff_exists.mp (htotal s a mem_cons_self)
    rw [runTrace, hs', elim_some, mem_append,
      ih fun s b hb => htotal s b (mem_cons_of_mem a hb)]
    simp

/-- An invariant under which no step puts out anything bad. -/
theorem forall_mem_runTrace_of_invariant {I : S → Prop}
    (hout : ∀ s, I s → ∀ a ∈ l, ∀ o ∈ out s a, P o)
    (hstep : ∀ s, I s → ∀ a ∈ l, ∀ s', f s a = some s' → I s') (hs : I s) :
    ∀ o ∈ runTrace f out s l, P o := by
  induction l generalizing s with
  | nil => simp [runTrace]
  | cons a l ih =>
    rw [runTrace, forall_mem_append]
    refine ⟨hout s hs a mem_cons_self, ?_⟩
    cases hnext : f s a with
    | none => simp
    | some s' =>
      apply ih
      · exact fun s hs b hb => hout s hs b (mem_cons_of_mem a hb)
      · exact fun s hs b hb => hstep s hs b (mem_cons_of_mem a hb)
      · exact hstep s hs a mem_cons_self s' hnext

end Trace

/-! ## Running sums -/

section Values

variable {A N : Type} (value : A → Option N)

/-- The values up to the first that is missing. -/
def valuesOf : List A → List N
  | [] => []
  | a :: l => (value a).elim [] fun v => v :: valuesOf l

variable {value}

variable {l : List A}

theorem mem_valuesOf {v : N} (h : v ∈ valuesOf value l) : ∃ a ∈ l, value a = some v := by
  induction l with
  | nil => simp [valuesOf] at h
  | cons a l ih =>
    rw [valuesOf] at h
    cases ha : value a with
    | none => simp [ha] at h
    | some w =>
      rw [ha, elim_some, mem_cons] at h
      rcases h with rfl | h
      · exact ⟨a, mem_cons_self, ha⟩
      · obtain ⟨b, hb, hv⟩ := ih h
        exact ⟨b, mem_cons_of_mem a hb, hv⟩

theorem valuesOf_eq_map {v : A → N} (h : ∀ a ∈ l, value a = some (v a)) :
    valuesOf value l = l.map v := by
  induction l with
  | nil => rfl
  | cons a l ih =>
    rw [forall_mem_cons] at h
    rw [valuesOf, h.1, elim_some, ih h.2, map_cons]

end Values

section Sums

variable {A N : Type} [AddCommMonoid N] (value : A → Option N)

/-- One more value for a sum. -/
def addValue (n : N) (a : A) : Option N := (value a).map fun v => n + v

/-- The sums after every value. -/
def runningSums (n : N) (l : List A) : List N :=
  runTrace (addValue value) (fun n a => (addValue value n a).toList) n l

variable {value}

theorem runningSums_cons (n : N) (a : A) (l : List A) :
    runningSums value n (a :: l) =
      (value a).elim [] fun v => (n + v) :: runningSums value (n + v) l := by
  unfold runningSums
  rw [runTrace]
  cases h : value a <;> simp [addValue, h]

variable {l : List A} {n : N}

theorem foldlM_addValue {total : N} (h : l.foldlM (addValue value) n = some total) :
    total = n + (valuesOf value l).sum := by
  induction l generalizing n with
  | nil =>
    cases h
    simp [valuesOf]
  | cons a l ih =>
    obtain ⟨m, hm, hrest⟩ := foldlM_cons_eq_some.mp h
    obtain ⟨v, hv, rfl⟩ := map_eq_some_iff.mp hm
    rw [ih hrest, valuesOf, hv, elim_some, sum_cons, add_assoc]

variable [LinearOrder N] [IsOrderedAddMonoid N]

theorem valuesOf_sum_nonneg (l : List A) (hvalues : ∀ a v, value a = some v → 0 ≤ v) :
    0 ≤ (valuesOf value l).sum := by
  apply sum_nonneg
  intro v hv
  obtain ⟨a, -, ha⟩ := mem_valuesOf hv
  exact hvalues a v ha

/-- A running sum does not fall below where it starts. -/
theorem le_of_mem_runningSums {m : N} (hvalues : ∀ a v, value a = some v → 0 ≤ v)
    (h : m ∈ runningSums value n l) : n ≤ m := by
  induction l generalizing n with
  | nil => simp [runningSums, runTrace] at h
  | cons a l ih =>
    rw [runningSums_cons] at h
    cases hv : value a with
    | none => simp [hv] at h
    | some v =>
      have hle : n ≤ n + v := le_add_of_nonneg_right (hvalues a v hv)
      rw [hv, elim_some, mem_cons] at h
      rcases h with rfl | h
      · exact hle
      · exact hle.trans (ih h)

/-- The sums stay below a bound if the last one does. -/
theorem runningSums_lt_iff (l : List A) {bound : N} (hn : n < bound)
    (hvalues : ∀ a v, value a = some v → 0 ≤ v) :
    (∀ m ∈ runningSums value n l, m < bound) ↔ n + (valuesOf value l).sum < bound := by
  induction l generalizing n with
  | nil => simpa [runningSums, runTrace, valuesOf] using hn
  | cons a l ih =>
    rw [runningSums_cons, valuesOf]
    cases hv : value a with
    | none => simpa using hn
    | some v =>
      rw [elim_some, elim_some, forall_mem_cons, sum_cons, ← add_assoc]
      constructor
      · rintro ⟨hfirst, hrest⟩
        exact (ih hfirst).mp hrest
      · intro hlast
        have hfirst : n + v < bound :=
          (le_add_of_nonneg_right (valuesOf_sum_nonneg l hvalues)).trans_lt hlast
        exact ⟨hfirst, (ih hfirst).mpr hlast⟩

end Sums

end Phoenixcoin.Lib
