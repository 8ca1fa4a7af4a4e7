import Mathlib.Order.Basic

/-!
# A cache that carries a stamp

A value of a state is kept together with a stamp of the state that it was computed in. It is
computed again when the cache was told to forget it or the stamp has changed. This is right where
stamps only grow, and a step that leaves the stamp alone leaves the value alone.
-/

set_option autoImplicit false

namespace Phoenixcoin.Lib

variable {σ τ β : Type} (stamp : σ → τ) (view : σ → β)

/-! ## Steps that a stamp shows -/

/-- From `s` to `s'` the stamp may grow; where it does not, the value is the same. -/
structure Shows [Preorder τ] (s s' : σ) : Prop where
  le : stamp s ≤ stamp s'
  same : stamp s = stamp s' → view s = view s'

section Steps

variable {stamp view} [PartialOrder τ] {s s' s'' : σ}

theorem Shows.refl (s : σ) : Shows stamp view s s := ⟨le_refl _, fun _ => rfl⟩

/-- A step that raises the stamp may do what it likes with the value. -/
theorem Shows.of_lt (h : stamp s < stamp s') : Shows stamp view s s' :=
  ⟨h.le, fun hsame => absurd hsame h.ne⟩

/-- A step that keeps the value only has to keep the stamp from falling. -/
theorem Shows.of_view (hle : stamp s ≤ stamp s') (h : view s = view s') : Shows stamp view s s' :=
  ⟨hle, fun _ => h⟩

theorem Shows.trans (h : Shows stamp view s s') (h' : Shows stamp view s' s'') :
    Shows stamp view s s'' where
  le := le_trans h.le h'.le
  same := by
    intro hsame
    -- The stamp in the middle lies between two equal ones.
    have hmiddle : stamp s = stamp s' := le_antisymm h.le (le_of_le_of_eq h'.le hsame.symm)
    rw [h.same hmiddle]
    exact h'.same (hmiddle.symm.trans hsame)

end Steps

/-! ## The cache -/

/-- What is kept: a stamp and a value, or nothing. -/
abbrev StampedCache (τ β : Type) : Type := Option (τ × β)

namespace StampedCache

/-- The cache after it was asked in the state `s`. -/
def refresh [DecidableEq τ] (s : σ) : StampedCache τ β → τ × β
  | none => (stamp s, view s)
  | some (t, b) => if t = stamp s then (t, b) else (stamp s, view s)

variable [PartialOrder τ]

/-- What is kept was computed in a state from which the steps to `s` show. -/
def Sound (s : σ) (cache : StampedCache τ β) : Prop :=
  ∀ t b, cache = some (t, b) → ∃ s₀, Shows stamp view s₀ s ∧ t = stamp s₀ ∧ b = view s₀

variable {stamp view} {s s' : σ} {cache : StampedCache τ β}

theorem sound_none : Sound stamp view s none := by
  intro t b h
  cases h

theorem sound_fresh : Sound stamp view s (some (stamp s, view s)) := by
  intro t b h
  cases h
  exact ⟨s, Shows.refl s, rfl, rfl⟩

theorem Sound.step (h : Sound stamp view s cache) (hstep : Shows stamp view s s') :
    Sound stamp view s' cache := by
  intro t b hcache
  obtain ⟨s₀, hshows, ht, hb⟩ := h t b hcache
  exact ⟨s₀, hshows.trans hstep, ht, hb⟩

/-- A sound cache gives the value of the state. -/
theorem Sound.refresh_eq [DecidableEq τ] (h : Sound stamp view s cache) :
    cache.refresh stamp view s = (stamp s, view s) := by
  cases cache with
  | none => rfl
  | some kept =>
    obtain ⟨t, b⟩ := kept
    rw [refresh]
    by_cases hstamp : t = stamp s
    · obtain ⟨s₀, hshows, rfl, rfl⟩ := h t b rfl
      rw [if_pos hstamp, hstamp, hshows.same hstamp]
    · rw [if_neg hstamp]

end StampedCache

end Phoenixcoin.Lib
