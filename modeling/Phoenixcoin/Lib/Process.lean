/-!
# Programs of atomic actions

A program performs actions one at a time, and what follows an action depends on its answer. A
loop repeats its body until the body breaks. The rules of `Safe` reason about one program with a
ledger of what it has done; other programs may act between any two of its actions.
-/

set_option autoImplicit false

namespace Phoenixcoin.Lib

/-- A program with a result in the index type: a result, an action with what follows each
answer, or a loop with what follows it. The body of a loop ends with a new state or breaks. -/
inductive Prog (Act : Type) (Ans : Act → Type) : Type → Type 1 where
  | ret {α : Type} (a : α) : Prog Act Ans α
  | act {α : Type} (x : Act) (k : Ans x → Prog Act Ans α) : Prog Act Ans α
  | loop {α β γ : Type} (body : β → Prog Act Ans (β ⊕ γ)) (b : β) (k : γ → Prog Act Ans α) :
      Prog Act Ans α

namespace Prog

variable {Act : Type} {Ans : Act → Type}

def bind {α β : Type} : Prog Act Ans α → (α → Prog Act Ans β) → Prog Act Ans β
  | ret a, f => f a
  | act x k, f => act x fun r => (k r).bind f
  | loop body b k, f => loop body b fun c => (k c).bind f

instance : Monad (Prog Act Ans) where
  pure := ret
  bind := bind

/-- One action, whose answer is the result. -/
def perform (x : Act) : Prog Act Ans (Ans x) := act x ret

/-- A loop whose last answer is the result. -/
def repeatUntil {β γ : Type} (b : β) (body : β → Prog Act Ans (β ⊕ γ)) : Prog Act Ans γ :=
  loop body b ret

/-- What follows one round of a loop. -/
def next {α β γ : Type} (body : β → Prog Act Ans (β ⊕ γ)) (k : γ → Prog Act Ans α) :
    β ⊕ γ → Prog Act Ans α
  | .inl b => loop body b k
  | .inr c => k c

/-- One step: an action with its answer, or the beginning of a round. -/
inductive Step {α : Type} : Prog Act Ans α → Option (Σ x, Ans x) → Prog Act Ans α → Prop where
  | act (x : Act) (k : Ans x → Prog Act Ans α) (r : Ans x) : Step (act x k) (some ⟨x, r⟩) (k r)
  | loop {β γ : Type} (body : β → Prog Act Ans (β ⊕ γ)) (b : β) (k : γ → Prog Act Ans α) :
      Step (loop body b k) none ((body b).bind (next body k))

end Prog

/-- A ledger of the actions of one program: when an action may be performed, and what it adds. -/
structure Bookkeeping (Act : Type) (Ans : Act → Type) (L : Type) where
  pre : L → Act → Prop
  note : L → (x : Act) → Ans x → L

namespace Prog

variable {Act : Type} {Ans : Act → Type} {L : Type} (B : Bookkeeping Act Ans L) {α β γ : Type}

/-- From a ledger on, every action is allowed when it is performed, whatever the answers, and
the result and the last ledger satisfy `post`. -/
def Safe {α : Type} : Prog Act Ans α → L → (α → L → Prop) → Prop
  | ret a, l, post => post a l
  | act x k, l, post => B.pre l x ∧ ∀ r, (k r).Safe (B.note l x r) post
  | @loop _ _ _ β _ body b k, l, post => ∃ inv : β → L → Prop, inv b l ∧ ∀ b l, inv b l →
      (body b).Safe l fun c l => c.elim (fun b => inv b l) fun c => (k c).Safe l post

variable {B}

variable {l : L} {p : Prog Act Ans α}

theorem Safe.mono {post post' : α → L → Prop} (h : p.Safe B l post)
    (himp : ∀ a l, post a l → post' a l) : p.Safe B l post' := by
  induction p generalizing l with
  | ret a => exact himp a l h
  | act x k ih => exact ⟨h.1, fun r => ih r (h.2 r) himp⟩
  | loop body b k ihbody ihk =>
    obtain ⟨inv, hinv, hround⟩ := h
    refine ⟨inv, hinv, fun b l hb => ihbody b (hround b l hb) fun c l hc => ?_⟩
    cases c with
    | inl b => exact hc
    | inr c => exact ihk c hc himp

theorem Safe.bind {f : α → Prog Act Ans β} {post : β → L → Prop}
    (h : p.Safe B l fun a l => (f a).Safe B l post) : (p >>= f).Safe B l post := by
  induction p generalizing l with
  | ret a => exact h
  | act x k ih => exact ⟨h.1, fun r => ih r (h.2 r)⟩
  | loop body b k _ ihk =>
    obtain ⟨inv, hinv, hround⟩ := h
    refine ⟨inv, hinv, fun b l hb => (hround b l hb).mono fun c l hc => ?_⟩
    cases c with
    | inl b => exact hc
    | inr c => exact ihk c hc

/-- One action, whose answer is the result. -/
theorem Safe.perform {x : Act} {post : Ans x → L → Prop} (hpre : B.pre l x)
    (hpost : ∀ r, post r (B.note l x r)) : (perform x : Prog Act Ans (Ans x)).Safe B l post :=
  ⟨hpre, hpost⟩

/-- The rule of a loop: what holds before each round. -/
theorem Safe.repeatUntil {b : β} {body : β → Prog Act Ans (β ⊕ γ)} {post : γ → L → Prop}
    (inv : β → L → Prop) (hinv : inv b l)
    (hround : ∀ b l, inv b l →
      (body b).Safe B l fun c l => c.elim (fun b => inv b l) fun c => post c l) :
    (repeatUntil b body).Safe B l post := ⟨inv, hinv, hround⟩

/-- A program that starts a round of its loop stays safe. -/
theorem Safe.round {p' : Prog Act Ans α} {post : α → L → Prop} (h : p.Safe B l post)
    (hstep : Step p none p') : p'.Safe B l post := by
  cases hstep with
  | loop body b k =>
    obtain ⟨inv, hinv, hround⟩ := h
    refine Safe.bind ((hround b l hinv).mono fun c l hc => ?_)
    cases c with
    | inl b => exact ⟨inv, hc, hround⟩
    | inr c => exact hc

/-- The next action of a safe program is allowed, and the program stays safe. -/
theorem Safe.act {p p' : Prog Act Ans α} {l : L} {post : α → L → Prop} {x : Act} {r : Ans x}
    (h : p.Safe B l post) (hstep : Step p (some ⟨x, r⟩) p') :
    B.pre l x ∧ p'.Safe B (B.note l x r) post := by
  cases hstep with
  | act x k r => exact ⟨h.1, h.2 r⟩

end Prog

end Phoenixcoin.Lib
