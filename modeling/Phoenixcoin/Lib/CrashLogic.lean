import Mathlib.Data.Nat.Notation

/-!
# Programs that the outside can fail or stop

A program runs over a state and asks the outside at each of its operations what becomes of
it: the operation may succeed, fail, or be the last thing the program does. A weakest
precondition has two postconditions, one for the value that the program returns and one for
the state that it is stopped in, as in crash Hoare logic.
-/

set_option autoImplicit false

namespace Phoenixcoin.Lib

/-- A program over the states `S`. The outside has numbered its choices; the program counts
the operations it has begun, and ends with a value, or without one when it was stopped. -/
def Crash (C S α : Type) : Type := (ℕ → C) → ℕ → S → Option α × ℕ × S

namespace Crash

variable {C S α β : Type}

def done (a : α) : Crash C S α := fun _ n s => (some a, n, s)

def andThen (m : Crash C S α) (f : α → Crash C S β) : Crash C S β := fun choices n s =>
  match m choices n s with
  | (some a, n, s) => f a choices n s
  | (none, n, s) => (none, n, s)

instance : Monad (Crash C S) where
  pure := done
  bind := andThen

/-- Read the state. -/
def look (f : S → α) : Crash C S α := fun _ n s => (some (f s), n, s)

/-- Change the state without asking the outside. -/
def change (f : S → S) : Crash C S Unit := fun _ n s => (some (), n, f s)

/-- One operation, which ends as the outside chooses; without a value, the program stops. -/
def act (op : C → S → Option α × S) : Crash C S α := fun choices n s =>
  ((op (choices n) s).1, n + 1, (op (choices n) s).2)

/-- The program ends itself. -/
def exit : Crash C S α := fun _ n s => (none, n, s)

/-! ## Runs -/

variable {f : α → Crash C S β} {m : Crash C S α}

theorem bind_of_some {choices : ℕ → C} {n n' : ℕ} {s s' : S} {a : α}
    (h : m choices n s = (some a, n', s')) :
    (m >>= f) choices n s = f a choices n' s' := by
  show andThen m f choices n s = f a choices n' s'
  rw [andThen, h]

theorem bind_of_none {choices : ℕ → C} {n : ℕ} {s : S} (h : (m choices n s).1 = none) :
    ((m >>= f) choices n s).1 = none := by
  show (andThen m f choices n s).1 = none
  unfold andThen
  rcases hrun : m choices n s with ⟨_ | a, n', s'⟩
  · rfl
  · rw [hrun] at h
    contradiction

/-! ## Weakest preconditions -/

/-- How a run may end: with a value in `post`, or stopped in `crash`. -/
def Ends (post : α → S → Prop) (crash : S → Prop) : Option α → S → Prop
  | some a, s => post a s
  | none, s => crash s

/-- From the state `s`, for all choices that are `allowed`, the program ends as it should. -/
def wp (allowed : C → Prop) (m : Crash C S α) (post : α → S → Prop) (crash : S → Prop)
    (s : S) : Prop :=
  ∀ choices n, (∀ k, allowed (choices k)) → Ends post crash (m choices n s).1 (m choices n s).2.2

variable {allowed : C → Prop} {post : α → S → Prop} {crash : S → Prop} {s : S}

theorem wp_pure {a : α} (h : post a s) : wp allowed (pure a) post crash s :=
  fun _ _ _ => h

theorem wp_exit (h : crash s) : wp allowed (exit : Crash C S α) post crash s :=
  fun _ _ _ => h

theorem wp_look {f : S → α} (h : post (f s) s) : wp allowed (look f) post crash s :=
  fun _ _ _ => h

theorem wp_change {f : S → S} {post : Unit → S → Prop} (h : post () (f s)) :
    wp allowed (change f) post crash s :=
  fun _ _ _ => h

theorem wp_act {op : C → S → Option α × S}
    (h : ∀ c, allowed c → Ends post crash (op c s).1 (op c s).2) :
    wp allowed (act op) post crash s :=
  fun choices n hallowed => h (choices n) (hallowed n)

theorem wp_bind {post : β → S → Prop}
    (h : wp allowed m (fun a s => wp allowed (f a) post crash s) crash s) :
    wp allowed (m >>= f) post crash s := by
  intro choices n hallowed
  have hm := h choices n hallowed
  show Ends post crash (andThen m f choices n s).1 (andThen m f choices n s).2.2
  unfold andThen
  rcases hrun : m choices n s with ⟨_ | a, n', s'⟩
  · rw [hrun] at hm
    exact hm
  · rw [hrun] at hm
    exact hm choices n' hallowed

/-- What holds of more ends than needed is enough. -/
theorem wp_mono {post' : α → S → Prop} {crash' : S → Prop} (h : wp allowed m post crash s)
    (hpost : ∀ a s, post a s → post' a s) (hcrash : ∀ s, crash s → crash' s) :
    wp allowed m post' crash' s := by
  intro choices n hallowed
  have hm := h choices n hallowed
  rcases hrun : m choices n s with ⟨_ | a, n', s'⟩
  · rw [hrun] at hm
    exact hcrash s' hm
  · rw [hrun] at hm
    exact hpost a s' hm

/-- A rule for a program in sequence with another: its own specification comes first. -/
theorem wp_seq {mid : α → S → Prop} {post : β → S → Prop} (hm : wp allowed m mid crash s)
    (hf : ∀ a s, mid a s → wp allowed (f a) post crash s) :
    wp allowed (m >>= f) post crash s :=
  wp_bind (wp_mono hm hf fun _ h => h)

theorem wp_ite {p : Prop} [Decidable p] {m' : Crash C S α} (h : p → wp allowed m post crash s)
    (h' : ¬ p → wp allowed m' post crash s) :
    wp allowed (if p then m else m') post crash s := by
  split
  · next hp => exact h hp
  · next hp => exact h' hp

/-- Fewer choices of the outside are fewer ways to end. -/
theorem wp_allowed {allowed' : C → Prop} (h : wp allowed m post crash s)
    (hallowed : ∀ c, allowed' c → allowed c) : wp allowed' m post crash s :=
  fun choices n h' => h choices n fun k => hallowed _ (h' k)

/-! ## Programs that are started again -/

/-- The states that runs of `m` lead to, one after the other, however each of them ends. -/
inductive Restarts (allowed : C → Prop) (m : Crash C S α) : S → S → Prop where
  | none (s : S) : Restarts allowed m s s
  | again {s s' : S} (h : Restarts allowed m s s') (choices : ℕ → C) (n : ℕ)
      (hallowed : ∀ k, allowed (choices k)) : Restarts allowed m s (m choices n s').2.2

/-- What a run leaves intact, however it ends, any number of runs does. -/
theorem Restarts.invariant {inv : S → Prop} (hm : ∀ s, inv s → wp allowed m (fun _ => inv) inv s)
    {s' : S} (h : Restarts allowed m s s') (hs : inv s) : inv s' := by
  induction h with
  | none => exact hs
  | @again s' _ choices n hallowed ih =>
    have hend := hm s' ih choices n hallowed
    rcases hrun : m choices n s' with ⟨_ | a, n', t⟩
    · rw [hrun] at hend
      exact hend
    · rw [hrun] at hend
      exact hend

end Crash

end Phoenixcoin.Lib
