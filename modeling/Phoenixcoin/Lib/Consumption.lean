import Mathlib.Data.Set.Basic

/-!
# Resources that events create and consume

Each event may consume only what is live, and what it consumes is no longer live unless the
same event creates it anew. Then between two events that consume a resource there is one
that creates it.
-/

set_option autoImplicit false

namespace Phoenixcoin.Lib

variable {E R : Type}

/-- What events do to resources. -/
structure Consumption (E R : Type) where
  creates : E → R → Prop
  consumes : E → R → Prop

namespace Consumption

variable (sys : Consumption E R)

/-- The event `e` may happen when `live` is live, and leaves at most `live'`. -/
structure Step (live : Set R) (e : E) (live' : Set R) : Prop where
  enabled : ∀ r, sys.consumes e r → r ∈ live
  left : ∀ r ∈ live', sys.creates e r ∨ (r ∈ live ∧ ¬ sys.consumes e r)

/-- A run of events, with the sets of live resources before and after it. -/
def Run : Set R → List E → Set R → Prop
  | live, [], live' => live = live'
  | live, e :: es, live' => ∃ mid, sys.Step live e mid ∧ Run mid es live'

variable {sys}

theorem Run.append {es es' : List E} :
    ∀ {live mid live' : Set R}, sys.Run live es mid → sys.Run mid es' live' →
      sys.Run live (es ++ es') live' := by
  induction es with
  | nil =>
    intro live mid live' h h'
    cases h
    exact h'
  | cons e es ih =>
    rintro live mid live' ⟨mid', hstep, hrun⟩ h'
    exact ⟨mid', hstep, ih hrun h'⟩

/-- A consumed resource was live at the start or was created by an earlier event. -/
theorem Run.origin {es : List E} :
    ∀ {live live' : Set R} {j : ℕ} {e : E} {r : R}, sys.Run live es live' →
      es[j]? = some e → sys.consumes e r →
      r ∈ live ∨ ∃ m e', m < j ∧ es[m]? = some e' ∧ sys.creates e' r := by
  induction es with
  | nil =>
    intro live live' j e r _ hj _
    contradiction
  | cons e0 es ih =>
    rintro live live' j e r ⟨mid, hstep, hrun⟩ hj hconsumes
    cases j with
    | zero =>
      cases hj
      exact Or.inl (hstep.enabled r hconsumes)
    | succ j =>
      rcases ih hrun hj hconsumes with hlive | ⟨m, e', hm, he', hcreates⟩
      · rcases hstep.left r hlive with hcreates | ⟨hlive', -⟩
        · exact Or.inr ⟨0, e0, Nat.succ_pos j, rfl, hcreates⟩
        · exact Or.inl hlive'
      · exact Or.inr ⟨m + 1, e', Nat.succ_lt_succ hm, he', hcreates⟩

theorem Run.created_between {es : List E} :
    ∀ {live live' : Set R} {i j : ℕ} {e e' : E} {r : R}, sys.Run live es live' → i < j →
      es[i]? = some e → es[j]? = some e' → sys.consumes e r → sys.consumes e' r →
      ∃ m e'', i ≤ m ∧ m < j ∧ es[m]? = some e'' ∧ sys.creates e'' r := by
  induction es with
  | nil =>
    intro live live' i j e e' r _ _ hi _ _ _
    contradiction
  | cons e0 es ih =>
    rintro live live' i j e e' r ⟨mid, hstep, hrun⟩ hij hi hj hconsumes hconsumes'
    obtain ⟨j, rfl⟩ : ∃ j', j = j' + 1 := ⟨j - 1, by omega⟩
    cases i with
    | zero =>
      cases hi
      rcases hrun.origin hj hconsumes' with hlive | ⟨m, e'', hm, he'', hcreates⟩
      · rcases hstep.left r hlive with hcreates | ⟨-, hnot⟩
        · exact ⟨0, e0, le_rfl, Nat.succ_pos j, rfl, hcreates⟩
        · exact absurd hconsumes hnot
      · exact ⟨m + 1, e'', Nat.zero_le _, Nat.succ_lt_succ hm, he'', hcreates⟩
    | succ i =>
      obtain ⟨m, e'', him, hmj, he'', hcreates⟩ :=
        ih hrun (Nat.lt_of_succ_lt_succ hij) hi hj hconsumes hconsumes'
      exact ⟨m + 1, e'', Nat.succ_le_succ him, Nat.succ_lt_succ hmj, he'', hcreates⟩

end Consumption

end Phoenixcoin.Lib
