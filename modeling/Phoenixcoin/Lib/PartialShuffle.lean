import Mathlib.Data.List.Perm.Basic
import Mathlib.Data.List.Nodup

/-!
# Partial shuffles

A shuffle in place that only fixes the first positions: round `i` swaps position `i` with a
position from `i` on. No later round touches what a round has put into its own position, and
without repetitions none of it stands anywhere else.
-/

set_option autoImplicit false

namespace Phoenixcoin.Lib

open List

variable {α : Type*}

/-- Swap what stands at two positions. -/
def swapAt (v : List α) (i p : ℕ) : List α :=
  match v[p]?, v[i]? with
  | some x, some y => (v.set p y).set i x
  | _, _ => v

section Swap

variable {v : List α} {i p : ℕ}

section

variable (hi : i < v.length) (hp : p < v.length)
include hi hp

theorem swapAt_eq : swapAt v i p = (v.set p v[i]).set i v[p] := by
  rw [swapAt, getElem?_eq_getElem hp, getElem?_eq_getElem hi]

theorem swapAt_perm : (swapAt v i p).Perm v := by
  rw [swapAt_eq hi hp]
  exact set_set_perm hp hi

theorem getElem?_swapAt_first : (swapAt v i p)[i]? = v[p]? := by
  rw [swapAt_eq hi hp, getElem?_set_self (by simpa using hi), getElem?_eq_getElem hp]

theorem getElem?_swapAt_of_ne {j : ℕ} (hij : i ≠ j) (hpj : p ≠ j) : (swapAt v i p)[j]? = v[j]? := by
  rw [swapAt_eq hi hp, getElem?_set_ne hij, getElem?_set_ne hpj]

end

end Swap

/-- The list after the first rounds; round `i` swaps the positions `i` and `d i`. -/
def shuffled (d : ℕ → ℕ) (v : List α) : ℕ → List α
  | 0 => v
  | i + 1 => swapAt (shuffled d v i) i (d i)

/-- What round `i` puts into its position. -/
def drawn (d : ℕ → ℕ) (v : List α) (i : ℕ) : Option α := (shuffled d v i)[d i]?

/-- A round in assignments. -/
theorem shuffled_succ {d : ℕ → ℕ} {v : List α} {i : ℕ} {x y : α} (hx : drawn d v i = some x)
    (hy : (shuffled d v i)[i]? = some y) :
    shuffled d v (i + 1) = ((shuffled d v i).set (d i) y).set i x := by
  unfold drawn at hx
  rw [shuffled, swapAt, hx, hy]

/-- Each round draws from its own position on. -/
def DrawsAhead (d : ℕ → ℕ) (length : ℕ) : Prop := ∀ i, i < length → i ≤ d i ∧ d i < length

section Rounds

variable {d : ℕ → ℕ} {v : List α} (hd : DrawsAhead d v.length)

include hd

theorem shuffled_perm {m : ℕ} (hm : m ≤ v.length) : (shuffled d v m).Perm v := by
  induction m with
  | zero => exact List.Perm.refl v
  | succ m ih =>
    have hperm := ih (by omega)
    have hlength := hperm.length_eq
    obtain ⟨-, hlt⟩ := hd m (by omega)
    exact (swapAt_perm (by omega) (by omega)).trans hperm

theorem drawn_eq_some {i : ℕ} (hi : i < v.length) : ∃ x ∈ v, drawn d v i = some x := by
  have hperm := shuffled_perm hd (Nat.le_of_lt hi)
  have hlt : d i < (shuffled d v i).length := hperm.length_eq.symm ▸ (hd i hi).2
  exact ⟨_, hperm.mem_iff.mp (getElem_mem hlt), getElem?_eq_getElem hlt⟩

/-- After its round no other round changes a position. -/
theorem getElem?_shuffled_of_lt {i m : ℕ} (him : i < m) (hm : m ≤ v.length) :
    (shuffled d v m)[i]? = drawn d v i := by
  induction m with
  | zero => omega
  | succ m ih =>
    have hlength := (shuffled_perm hd (m := m) (by omega)).length_eq
    obtain ⟨hle, hlt⟩ := hd m (by omega)
    unfold shuffled
    by_cases heq : i = m
    · subst heq
      exact getElem?_swapAt_first (by omega) (by omega)
    · rw [getElem?_swapAt_of_ne (by omega) (by omega) (by omega) (by omega)]
      exact ih (by omega) (by omega)

/-- Without repetitions the positions behind the rounds hold nothing that was drawn. -/
theorem drawn_ne_of_le (hnodup : v.Nodup) {i m p : ℕ} (him : i < m) (hm : m ≤ v.length)
    (hp : m ≤ p) (hlt : p < v.length) : (shuffled d v m)[p]? ≠ drawn d v i := by
  have hperm := shuffled_perm hd hm
  have hlength := hperm.length_eq
  rw [← getElem?_shuffled_of_lt hd him hm]
  intro heq
  have hsame := (hperm.nodup_iff.mpr hnodup).getElem_inj_iff.mp
    (Option.some.inj ((getElem?_eq_getElem (by omega)).symm.trans
      (heq.trans (getElem?_eq_getElem (by omega)))))
  omega

end Rounds

end Phoenixcoin.Lib
