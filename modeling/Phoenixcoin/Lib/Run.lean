import Mathlib.Data.List.Basic
import Mathlib.Data.List.Induction
import Mathlib.Data.Option.Basic

/-!
# Runs of fallible steps

A run folds a step `S → A → Option S` over a list of inputs and stops at the first failure.
The rules below carry an invariant, a simulation or an undo operation from one step to a
whole run.
-/

set_option autoImplicit false

namespace Phoenixcoin.Lib

open List

variable {p : Prop}

/-- A guarded computation succeeds when the guard holds and the rest succeeds. -/
@[simp]
theorem guard_bind_eq_some {B : Type} [Decidable p] {f : Unit → Option B} {b : B} :
    (guard p : Option Unit).bind f = some b ↔ p ∧ f () = some b := by
  by_cases h : p <;> simp [guard, h]

/-- The form in which a guard appears once a bind has been split into its two parts. -/
@[simp]
theorem exists_guard_eq_some [Decidable p] {q : Unit → Prop} :
    (∃ u, (guard p : Option Unit) = some u ∧ q u) ↔ p ∧ q () := by
  by_cases h : p
  · simp only [guard, Option.pure_def, h, true_and]
    exact ⟨fun ⟨_, _, hq⟩ => hq, fun hq => ⟨(), rfl, hq⟩⟩
  · simp [guard, h]

section Runs

variable {S T A : Type}

variable {f : S → A → Option S} {l : List A} {s s' : S} {E : Type} {x : Except E S}
  {P : S → List A → Prop}

variable {a : A} {p : A → Prop} {R : S → T → Prop} {g : T → A → Option T} {ok : S → A → Prop}

theorem foldlM_cons_eq_some :
    (a :: l).foldlM f s = some s' ↔ ∃ m, f s a = some m ∧ l.foldlM f m = some s' := by
  exact Option.bind_eq_some_iff

theorem foldlM_append_eq_some {l' : List A} :
    (l ++ l').foldlM f s = some s' ↔
      ∃ m, l.foldlM f s = some m ∧ l'.foldlM f m = some s' := by
  rw [foldlM_append]
  exact Option.bind_eq_some_iff

/-- An invariant that may speak about the inputs still to come holds at the end of a run. -/
theorem foldlM_invariant {f : S → A → Option S} {P : S → List A → Prop}
    (hstep : ∀ a l s s', P s (a :: l) → f s a = some s' → P s' l) :
    ∀ {l : List A} {s s' : S}, P s l → l.foldlM f s = some s' → P s' [] := by
  intro l
  induction l with
  | nil =>
    intro s s' hs h
    cases h
    exact hs
  | cons a l ih =>
    intro s s' hs h
    obtain ⟨m, hm, hrest⟩ := foldlM_cons_eq_some.mp h
    exact ih (hstep a l s m hs hm) hrest

/-- An invariant of every step is an invariant of a run whose failures carry an error. -/
theorem foldlM_invariant_ok {f : S → A → Except E S} {P : S → Prop}
    (hstep : ∀ a ∈ l, ∀ s s', P s → f s a = .ok s' → P s') :
    ∀ {s s' : S}, P s → l.foldlM f s = .ok s' → P s' := by
  induction l with
  | nil =>
    intro s s' hs h
    cases h
    exact hs
  | cons a l ih =>
    intro s s' hs h
    rw [foldlM_cons] at h
    cases hm : f s a with
    | error e =>
      rw [hm] at h
      cases h
    | ok m =>
      rw [hm] at h
      exact ih (fun b hb => hstep b (mem_cons_of_mem a hb))
        (hstep a mem_cons_self s m hs hm) h

theorem except_bind_eq_ok {f : S → Except E T} {r : T} :
    (x >>= f) = .ok r ↔ ∃ m, x = .ok m ∧ f m = .ok r := by
  cases x with
  | error e =>
    constructor
    · intro h
      cases h
    · rintro ⟨m, h, -⟩
      cases h
  | ok m =>
    constructor
    · exact fun h => ⟨m, rfl, h⟩
    · rintro ⟨m', h, hrest⟩
      cases h
      exact hrest

theorem toOption_eq_some {r : S} : x.toOption = some r ↔ x = .ok r := by
  cases x <;> simp [Except.toOption]

theorem foldlM_cons_eq_ok {f : S → A → Except E S} :
    (a :: l).foldlM f s = .ok s' ↔ ∃ m, f s a = .ok m ∧ l.foldlM f m = .ok s' := by
  exact except_bind_eq_ok

/-- A run whose steps only check their inputs and update the state without condition. -/
theorem foldlM_eq_ok_iff {f : S → A → Except E S} {g : S → A → S}
    (hstep : ∀ s a s', f s a = .ok s' ↔ p a ∧ g s a = s') :
    ∀ {l : List A} {s s' : S}, l.foldlM f s = .ok s' ↔ (∀ a ∈ l, p a) ∧ l.foldl g s = s' := by
  intro l
  induction l with
  | nil =>
    intro s s'
    constructor
    · intro h
      cases h
      exact ⟨fun a ha => absurd ha not_mem_nil, rfl⟩
    · rintro ⟨-, rfl⟩
      rfl
  | cons a l ih =>
    intro s s'
    rw [foldlM_cons_eq_ok, forall_mem_cons]
    constructor
    · rintro ⟨m, hm, hrest⟩
      obtain ⟨ha, rfl⟩ := (hstep s a m).mp hm
      obtain ⟨hall, hfold⟩ := ih.mp hrest
      exact ⟨⟨ha, hall⟩, hfold⟩
    · rintro ⟨⟨ha, hall⟩, hfold⟩
      exact ⟨g s a, (hstep s a _).mpr ⟨ha, rfl⟩, ih.mpr ⟨hall, hfold⟩⟩

theorem except_bind_eq_error {f : S → Except E T} {e : E} :
    (x >>= f) = .error e ↔ x = .error e ∨ ∃ m, x = .ok m ∧ f m = .error e := by
  cases x with
  | error e' =>
    constructor
    · intro h
      cases h
      exact Or.inl rfl
    · rintro (h | ⟨m, h, -⟩)
      · cases h
        rfl
      · cases h
  | ok m =>
    constructor
    · exact fun h => Or.inr ⟨m, rfl, h⟩
    · rintro (h | ⟨m', h, hrest⟩)
      · cases h
      · cases h
        exact hrest

/-- The error of a run is the error of one of its steps. -/
theorem foldlM_eq_error {f : S → A → Except E S} {p : E → Prop}
    (hstep : ∀ s a e, f s a = .error e → p e) :
    ∀ {l : List A} {s : S} {e : E}, l.foldlM f s = .error e → p e := by
  intro l
  induction l with
  | nil =>
    intro s e h
    cases h
  | cons a l ih =>
    intro s e h
    rcases except_bind_eq_error.mp h with hfirst | ⟨m, -, hrest⟩
    · exact hstep s a e hfirst
    · exact ih hrest

/-- A run succeeds if and only if each of its steps does, where an invariant makes the success of a
step depend on its input alone. -/
theorem foldlM_isSome_iff (hstep : ∀ a l s s', P s (a :: l) → f s a = some s' → P s' l)
    (hok : ∀ a l s, P s (a :: l) → ((f s a).isSome ↔ p a)) :
    ∀ {l : List A} {s : S}, P s l → ((l.foldlM f s).isSome ↔ ∀ a ∈ l, p a) := by
  intro l
  induction l with
  | nil => simp
  | cons a l ih =>
    intro s hs
    rw [foldlM_cons, forall_mem_cons, ← hok a l s hs]
    cases hm : f s a with
    | none => simp
    | some m =>
      have hrest := ih (hstep a l s m hs hm)
      simpa using hrest

/-- A run simulates another when every step does. -/
theorem foldlM_simulates
    (hstep : ∀ a ∈ l, ∀ s t s', R s t → f s a = some s' → ∃ t', g t a = some t' ∧ R s' t') :
    ∀ {s : S} {t : T} {s' : S}, R s t → l.foldlM f s = some s' →
      ∃ t', l.foldlM g t = some t' ∧ R s' t' := by
  induction l with
  | nil =>
    intro s t s' hR h
    cases h
    exact ⟨t, rfl, hR⟩
  | cons a l ih =>
    intro s t s' hR h
    obtain ⟨m, hm, hrest⟩ := foldlM_cons_eq_some.mp h
    obtain ⟨u, hu, hRm⟩ := hstep a mem_cons_self s t m hR hm
    obtain ⟨t', ht', hR'⟩ := ih (fun b hb => hstep b (mem_cons_of_mem a hb)) hRm hrest
    exact ⟨t', foldlM_cons_eq_some.mpr ⟨u, hu, ht'⟩, hR'⟩

/-- Undoing the steps of a run in reverse order leads back to its start. The undo steps work
on states of their own, which `R` relates to those of the run; `P` is an invariant of the
run and of the inputs that are still to come. -/
theorem foldlM_reverse_undo
    (hstep : ∀ a l s s', P s (a :: l) → f s a = some s' →
      P s' l ∧ ∀ t', R s' t' → ∃ t, g t' a = some t ∧ R s t) :
    ∀ {l : List A} {s s' : S} {t' : T}, P s l → l.foldlM f s = some s' → R s' t' →
      ∃ t, l.reverse.foldlM g t' = some t ∧ R s t := by
  intro l
  induction l with
  | nil =>
    intro s s' t' _ h hR
    cases h
    exact ⟨t', rfl, hR⟩
  | cons a l ih =>
    intro s s' t' hP h hR
    obtain ⟨m, hm, hrest⟩ := foldlM_cons_eq_some.mp h
    obtain ⟨hPm, hundo⟩ := hstep a l s m hP hm
    obtain ⟨u, hu, hRu⟩ := ih hPm hrest hR
    obtain ⟨t, ht, hRt⟩ := hundo u hRu
    refine ⟨t, ?_, hRt⟩
    rw [reverse_cons, foldlM_append_eq_some]
    exact ⟨u, hu, foldlM_cons_eq_some.mpr ⟨t, ht, rfl⟩⟩

/-- Where every step succeeds and keeps `good` if and only if it is `ok`, the states of a run are
all good if and only if its steps are all `ok`. `P` and `Q` hold of every run. -/
theorem foldlM_good_iff {f : S → A → Option S} {P good : S → Prop} {ok : S → A → Prop}
    {Q : S → A → S → Prop}
    (hstep : ∀ s a, P s → ∃ s', f s a = some s' ∧ P s' ∧ Q s a s' ∧ (good s → (good s' ↔ ok s a))) :
    ∀ {l : List A} {s : S}, P s → good s →
      ((∀ before a after, l = before ++ a :: after →
          ∃ m m', before.foldlM f s = some m ∧ f m a = some m' ∧ good m' ∧ Q m a m') ↔
        ∀ before a after, l = before ++ a :: after → ∀ m, before.foldlM f s = some m → ok m a) := by
  intro l
  induction l with
  | nil =>
    intro s _ _
    constructor
    · intro _ before a after hl
      exact absurd hl (by simp)
    · intro _ before a after hl
      exact absurd hl (by simp)
  | cons a l ih =>
    intro s hP hgood
    obtain ⟨s', hs', hP', hQ, hiff⟩ := hstep s a hP
    have hcons (b : List A) : (a :: b).foldlM f s = b.foldlM f s' := by
      rw [foldlM_cons, hs']
      rfl
    constructor
    · intro hall
      obtain ⟨m, m', hm, hm', hgood', -⟩ := hall [] a l rfl
      cases hm
      rw [hs'] at hm'
      cases hm'
      have hok := (hiff hgood).mp hgood'
      have hrest := (ih hP' hgood').mp (by
        intro before b after hl
        obtain ⟨m, m', hm, hm'⟩ := hall (a :: before) b after (by rw [hl, cons_append])
        rw [hcons] at hm
        exact ⟨m, m', hm, hm'⟩)
      intro before b after hl m hm
      cases before with
      | nil =>
        cases hl
        cases hm
        exact hok
      | cons c before =>
        rw [cons_append, cons.injEq] at hl
        obtain ⟨rfl, hl⟩ := hl
        rw [hcons] at hm
        exact hrest before b after hl m hm
    · intro hall
      have hgood' := (hiff hgood).mpr (hall [] a l rfl s rfl)
      have hrest := (ih hP' hgood').mpr (by
        intro before b after hl m hm
        exact hall (a :: before) b after (by rw [hl, cons_append]) m (by rw [hcons, hm]))
      intro before b after hl
      cases before with
      | nil =>
        cases hl
        exact ⟨s, s', rfl, hs', hgood', hQ⟩
      | cons c before =>
        rw [cons_append, cons.injEq] at hl
        obtain ⟨rfl, hl⟩ := hl
        obtain ⟨m, m', hm, hm'⟩ := hrest before b after hl
        exact ⟨m, m', by rw [hcons, hm], hm'⟩

/-- A property of the state that each step keeps exactly if it is `ok` in the state that it finds
holds at the end of a run exactly if it held before and every step was `ok`. -/
theorem foldlM_iff {Q : S → Prop}
    (hstep : ∀ a l s s', P s (a :: l) → f s a = some s' → P s' l ∧ (Q s' ↔ Q s ∧ ok s a)) :
    ∀ {l : List A} {s s' : S}, P s l → l.foldlM f s = some s' →
      (Q s' ↔ Q s ∧ ∀ before a after, l = before ++ a :: after →
        ∀ m, before.foldlM f s = some m → ok m a) := by
  intro l
  induction l with
  | nil =>
    intro s s' _ h
    cases h
    simp
  | cons b l ih =>
    intro s s' hs h
    obtain ⟨m, hm, hrest⟩ := foldlM_cons_eq_some.mp h
    obtain ⟨hP, hQ⟩ := hstep b l s m hs hm
    rw [ih hP hrest, hQ, and_assoc]
    refine and_congr_right fun _ => ⟨?_, fun hall => ⟨hall [] b l rfl s rfl, ?_⟩⟩
    · rintro ⟨hb, hall⟩ before a after hl k hk
      cases before with
      | nil =>
        cases hl
        cases hk
        exact hb
      | cons c before =>
        rw [cons_append, cons.injEq] at hl
        obtain ⟨rfl, hl⟩ := hl
        obtain ⟨m', hm', hk⟩ := foldlM_cons_eq_some.mp hk
        rw [hm, Option.some.injEq] at hm'
        exact hall before a after hl k (hm' ▸ hk)
    · intro before a after hl k hk
      exact hall (b :: before) a after (by rw [hl]; rfl) k (foldlM_cons_eq_some.mpr ⟨m, hm, hk⟩)

/-- The calls of a run hold one after the other if and only if each is `ok` in the state that it
finds, where a call that holds does not end the run. -/
theorem foldlM_holds_iff {P : S → Prop} {holds : S → A → Prop}
    (hstep : ∀ s a, P s → (holds s a ↔ ok s a) ∧ (holds s a → (f s a).isSome) ∧
      ∀ s', f s a = some s' → P s') :
    ∀ {l : List A} {s : S}, P s →
      ((∀ before a after, l = before ++ a :: after → ∃ m, before.foldlM f s = some m ∧ holds m a) ↔
        ∀ before a after, l = before ++ a :: after → ∀ m, before.foldlM f s = some m → ok m a) := by
  intro l s hP
  have hrun : ∀ {before : List A} {m : S}, before.foldlM f s = some m → P m := fun h =>
    foldlM_invariant (P := fun m _ => P m) (fun a _ m m' hm hm' => (hstep m a hm).2.2 m' hm') hP h
  constructor
  · intro hall before a after hl m hm
    obtain ⟨m', hm', hholds⟩ := hall before a after hl
    rw [hm, Option.some.injEq] at hm'
    exact (hstep m a (hrun hm)).1.mp (hm' ▸ hholds)
  · intro hall before
    induction before using reverseRecOn with
    | nil => exact fun a after hl => ⟨s, rfl, (hstep s a hP).1.mpr (hall [] a after hl s rfl)⟩
    | append_singleton before b ih =>
      intro a after hl
      have hb : l = before ++ b :: a :: after := by simp [hl]
      obtain ⟨m, hm, hholds⟩ := ih b (a :: after) hb
      obtain ⟨m', hm'⟩ := Option.isSome_iff_exists.mp ((hstep m b (hrun hm)).2.1 hholds)
      have hnext : (before ++ [b]).foldlM f s = some m' :=
        foldlM_append_eq_some.mpr ⟨m, hm, by simp [hm']⟩
      exact ⟨m', hnext, (hstep m' a (hrun hnext)).1.mpr (hall _ a after hl m' hnext)⟩

/-- A run in which every prefix is good, where `same` holds until the first bad input and a
bad input spoils it: no input of the run is bad. -/
theorem foldl_prefixes_iff {step : S → A → S} {same good : S → Prop} {bad : A → Prop}
    {l : List A} (hgood : ∀ s, same s → good s)
    (hkeep : ∀ a ∈ l, ∀ s, same s → ¬ bad a → same (step s a))
    (hbreak : ∀ a ∈ l, ∀ s, same s → bad a → ¬ good (step s a)) :
    ∀ s, same s → ((∀ l', l' <+: l → good (l'.foldl step s)) ↔ ∀ a ∈ l, ¬ bad a) := by
  induction l with
  | nil =>
    intro s hs
    refine ⟨fun _ a ha => absurd ha not_mem_nil, fun _ l' hl' => ?_⟩
    rw [prefix_nil.mp hl']
    exact hgood s hs
  | cons a l ih =>
    intro s hs
    have ih := ih (fun b hb => hkeep b (mem_cons_of_mem a hb))
      fun b hb => hbreak b (mem_cons_of_mem a hb)
    constructor
    · intro h
      have ha : ¬ bad a := fun hbad => hbreak a mem_cons_self s hs hbad
        (h [a] ((prefix_cons_inj a).mpr nil_prefix))
      have hrest := (ih _ (hkeep a mem_cons_self s hs ha)).mp
        fun l' hl' => h (a :: l') ((prefix_cons_inj a).mpr hl')
      exact fun b hb => (mem_cons.mp hb).elim (fun heq => heq ▸ ha) (hrest b)
    · intro h l' hl'
      cases l' with
      | nil => exact hgood s hs
      | cons b l' =>
        obtain ⟨rfl, htail⟩ := cons_prefix_cons.mp hl'
        exact (ih _ (hkeep b mem_cons_self s hs (h b mem_cons_self))).mpr
          (fun c hc => h c (mem_cons_of_mem b hc)) l' htail

end Runs

end Phoenixcoin.Lib
