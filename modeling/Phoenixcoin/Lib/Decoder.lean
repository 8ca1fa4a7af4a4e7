import Mathlib.Data.List.Basic

/-!
# Decoders

A decoder is a program that reads blocks of bytes and ends with a value or with a failure. It
can be run on any kind of stream that answers reads; a simulation between two kinds of stream
carries a run over from one to the other. The reference stream is a list of bytes whose reads
never fail: past its end they supply zeros.
-/

set_option autoImplicit false

namespace Phoenixcoin.Lib

open List

/-- The next `n` bytes of a stream, filled up with zeros where it ends, and what is left. -/
def readBytes (n : ℕ) (s : List UInt8) : List UInt8 × List UInt8 :=
  (s.take n ++ List.replicate (n - s.length) 0, s.drop n)

@[simp]
theorem length_readBytes (n : ℕ) (s : List UInt8) : (readBytes n s).1.length = n := by
  simp only [readBytes, length_append, length_take, length_replicate]
  omega

theorem readBytes_append {n : ℕ} {enc : List UInt8} (h : enc.length = n) (rest : List UInt8) :
    readBytes n (enc ++ rest) = (enc, rest) := by
  subst h
  simp [readBytes]

theorem readBytes_add (m n : ℕ) (s : List UInt8) :
    readBytes (m + n) s =
      ((readBytes m s).1 ++ (readBytes n (readBytes m s).2).1,
        (readBytes n (readBytes m s).2).2) := by
  by_cases h : m ≤ s.length
  · have hzero : m - s.length = 0 := by omega
    have hrest : m + n - s.length = n - (s.length - m) := by omega
    simp only [readBytes, hzero, replicate_zero, append_nil, length_drop,
      drop_drop, hrest, take_add, append_assoc]
  · have hdrop : s.drop m = [] := drop_eq_nil_of_le (by omega)
    have hall : s.drop (m + n) = [] := drop_eq_nil_of_le (by omega)
    have htake : s.take (m + n) = s := take_of_length_le (by omega)
    have htake' : s.take m = s := take_of_length_le (by omega)
    have hsum : m + n - s.length = m - s.length + n := by omega
    simp only [readBytes, hdrop, hall, htake, htake', hsum, take_nil, drop_nil,
      length_nil, Nat.sub_zero, nil_append, append_assoc, replicate_add]

/-! ## Programs of reads -/

inductive Decoder (α : Type) where
  | done (x : α)
  | fail
  | read (n : ℕ) (next : List UInt8 → Decoder α)

namespace Decoder

variable {α β γ σ τ : Type}

def bind : Decoder α → (α → Decoder β) → Decoder β
  | done x, f => f x
  | fail, _ => fail
  | read n next, f => read n fun bs => (next bs).bind f

def map (f : α → β) (d : Decoder α) : Decoder β := d.bind fun x => done (f x)

theorem bind_assoc (d : Decoder α) (f : α → Decoder β) (g : β → Decoder γ) :
    (d.bind f).bind g = d.bind fun x => (f x).bind g := by
  induction d with
  | done x => rfl
  | fail => rfl
  | read n next ih =>
    simp only [bind]
    congr 1
    funext bs
    exact ih bs

theorem bind_done (d : Decoder α) : d.bind done = d := by
  induction d with
  | done x => rfl
  | fail => rfl
  | read n next ih =>
    simp only [bind]
    congr 1
    funext bs
    exact ih bs

/-- Run a decoder on a stream whose reads are `readStream`; `none` is a failure. -/
def run (readStream : ℕ → σ → List UInt8 × σ) : Decoder α → σ → Option (α × σ)
  | done x, s => some (x, s)
  | fail, _ => none
  | read n next, s => (next (readStream n s).1).run readStream (readStream n s).2

theorem run_bind (readStream : ℕ → σ → List UInt8 × σ) (d : Decoder α) (f : α → Decoder β) (s : σ) :
    (d.bind f).run readStream s =
      (d.run readStream s).bind fun r => (f r.1).run readStream r.2 := by
  induction d generalizing s with
  | done x => rfl
  | fail => rfl
  | read n next ih => exact ih _ _

variable {d : Decoder α} {s s' : List UInt8}

/-- A successful run carries over to every stream that simulates the one it ran on. `R` relates
the two streams as long as `P` holds of the stream of the run, and `P` holds of every state
from which a state with `P` is reached. -/
theorem run_of_simulation {readσ : ℕ → σ → List UInt8 × σ} {readτ : ℕ → τ → List UInt8 × τ}
    {R : σ → τ → Prop} {P : τ → Prop} (hback : ∀ n t, P (readτ n t).2 → P t)
    (hstep : ∀ n s t, R s t → P (readτ n t).2 →
      (readσ n s).1 = (readτ n t).1 ∧ R (readσ n s).2 (readτ n t).2) {s : σ} {t t' : τ} {x : α}
    (hR : R s t) (hrun : d.run readτ t = some (x, t')) (hP : P t') :
    ∃ s', d.run readσ s = some (x, s') ∧ R s' t' := by
  have hstart : ∀ {d : Decoder α} {t : τ}, d.run readτ t = some (x, t') → P t := by
    intro d
    induction d with
    | done y =>
      intro t h
      simp only [run, Option.some.injEq, Prod.mk.injEq] at h
      rwa [h.2]
    | fail =>
      intro t h
      cases h
    | read n next ih => exact fun h => hback n _ (ih _ h)
  induction d generalizing s t with
  | done y =>
    obtain ⟨rfl, rfl⟩ := hrun
    exact ⟨s, rfl, hR⟩
  | fail => cases hrun
  | read n next ih =>
    obtain ⟨hbytes, hR'⟩ := hstep n s t hR (hstart hrun)
    simp only [run, hbytes]
    exact ih _ hR' hrun

/-! ## Runs on a list of bytes -/

/-- Run a decoder on the bytes of a list. -/
def eval (d : Decoder α) (s : List UInt8) : Option (α × List UInt8) := d.run readBytes s

@[simp]
theorem eval_done (x : α) (s : List UInt8) : (done x).eval s = some (x, s) := rfl

@[simp]
theorem eval_fail (s : List UInt8) : (fail : Decoder α).eval s = none := rfl

@[simp]
theorem eval_read (n : ℕ) (next : List UInt8 → Decoder α) (s : List UInt8) :
    (read n next).eval s = (next (readBytes n s).1).eval (readBytes n s).2 := rfl

@[simp]
theorem eval_bind (d : Decoder α) (f : α → Decoder β) (s : List UInt8) :
    (d.bind f).eval s = (d.eval s).bind fun r => (f r.1).eval r.2 :=
  run_bind _ _ _ _

@[simp]
theorem eval_map (f : α → β) (d : Decoder α) (s : List UInt8) :
    (d.map f).eval s = (d.eval s).map fun r => (f r.1, r.2) := by
  rw [map, eval_bind]
  cases d.eval s with
  | none => rfl
  | some r => rfl

theorem eval_bind_eq_some {f : α → Decoder β} {y : β} :
    (d.bind f).eval s = some (y, s') ↔
      ∃ x s₁, d.eval s = some (x, s₁) ∧ (f x).eval s₁ = some (y, s') := by
  rw [eval_bind, Option.bind_eq_some_iff]
  simp

theorem eval_map_eq_some {f : α → β} {y : β} :
    (d.map f).eval s = some (y, s') ↔ ∃ x, d.eval s = some (x, s') ∧ f x = y := by
  rw [eval_map, Option.map_eq_some_iff]
  constructor
  · rintro ⟨⟨x, s₁⟩, h, he⟩
    simp only [Prod.mk.injEq] at he
    obtain ⟨he, rfl⟩ := he
    exact ⟨x, h, he⟩
  · rintro ⟨x, h, rfl⟩
    exact ⟨(x, s'), h, rfl⟩

/-! ## Loops -/

/-- `n` values one after another. -/
def many (d : Decoder α) : ℕ → Decoder (List α)
  | 0 => done []
  | n + 1 => d.bind fun x => (many d n).map (x :: ·)

/-- `n` values in blocks of at most `chunk`; every block holds a value, so `n` is fuel enough. -/
def blocks (chunk : ℕ) (d : Decoder α) : ℕ → ℕ → Decoder (List α)
  | 0, _ => done []
  | fuel + 1, n =>
    if n = 0 then done []
    else (many d (min n chunk)).bind fun xs =>
      (blocks chunk d fuel (n - min n chunk)).map (xs ++ ·)

/-- `n` bytes in blocks of at most `chunk`. -/
def byteBlocks (chunk : ℕ) : ℕ → ℕ → Decoder (List UInt8)
  | 0, _ => done []
  | fuel + 1, n =>
    if n = 0 then done []
    else read (min n chunk) fun bs => (byteBlocks chunk fuel (n - min n chunk)).map (bs ++ ·)

theorem map_eq_bind (f : α → β) (d : Decoder α) : d.map f = d.bind fun x => done (f x) := rfl

theorem many_add (d : Decoder α) (m n : ℕ) :
    many d (m + n) = (many d m).bind fun xs => (many d n).map (xs ++ ·) := by
  induction m with
  | zero =>
    simp [many, bind, map, bind_done]
  | succ m ih =>
    rw [Nat.succ_add]
    simp [many, ih, map_eq_bind, bind_assoc, bind]

theorem length_of_eval_many {n : ℕ} {xs : List α} (h : (d.many n).eval s = some (xs, s')) :
    xs.length = n := by
  induction n generalizing s xs with
  | zero =>
    simp only [many, eval_done, Option.some.injEq, Prod.mk.injEq] at h
    rw [← h.1, length_nil]
  | succ n ih =>
    obtain ⟨x, s₁, -, h⟩ := eval_bind_eq_some.mp h
    obtain ⟨ys, hys, rfl⟩ := eval_map_eq_some.mp h
    rw [length_cons, ih hys]

/-- Values that are read back one after another are read back as a list. -/
theorem eval_many_of_forall {write : α → List UInt8} {xs : List α}
    (h : ∀ x ∈ xs, ∀ rest, d.eval (write x ++ rest) = some (x, rest)) (rest : List UInt8) :
    (d.many xs.length).eval ((xs.map write).flatten ++ rest) = some (xs, rest) := by
  induction xs with
  | nil => rfl
  | cons x xs ih =>
    rw [List.map_cons, flatten_cons, length_cons, append_assoc, many, eval_bind_eq_some]
    refine ⟨x, _, h x List.mem_cons_self _, ?_⟩
    rw [eval_map_eq_some]
    exact ⟨xs, ih fun y hy => h y (List.mem_cons_of_mem x hy), rfl⟩

/-- Reading in blocks reads the same values as reading one after another. -/
theorem blocks_eq_many {chunk : ℕ} (hchunk : 0 < chunk) (d : Decoder α) :
    ∀ {fuel n : ℕ}, n ≤ fuel → blocks chunk d fuel n = many d n := by
  intro fuel
  induction fuel with
  | zero =>
    intro n hn
    obtain rfl : n = 0 := by omega
    rfl
  | succ fuel ih =>
    intro n hn
    unfold blocks
    by_cases hzero : n = 0
    · rw [hzero]
      rfl
    · rw [if_neg hzero, ih (by omega), ← many_add]
      congr 1
      omega

theorem eval_byteBlocks {chunk : ℕ} (hchunk : 0 < chunk) :
    ∀ {fuel n : ℕ} (s : List UInt8), n ≤ fuel →
      (byteBlocks chunk fuel n).eval s = some (readBytes n s) := by
  intro fuel
  induction fuel with
  | zero =>
    intro n s hn
    obtain rfl : n = 0 := by omega
    simp [byteBlocks, readBytes]
  | succ fuel ih =>
    intro n s hn
    unfold byteBlocks
    by_cases hzero : n = 0
    · rw [hzero]
      simp [readBytes]
    · have hsplit : n = min n chunk + (n - min n chunk) := by omega
      rw [if_neg hzero, eval_read, eval_map, ih _ (by omega)]
      conv_rhs => rw [hsplit, readBytes_add]
      rfl

end Decoder

end Phoenixcoin.Lib
