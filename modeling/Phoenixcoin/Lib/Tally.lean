import Mathlib.Algebra.Order.Ring.Int
import Phoenixcoin.Lib.Table

/-!
# Tallies

A table of balances to which amounts are posted, as a loop does that adds to the entries of a map
and makes the missing ones. The balance of a key is what was posted to it, and the sum of all
balances is the sum of all amounts.
-/

set_option autoImplicit false

namespace Phoenixcoin.Lib.Tally

variable {K : Type} [DecidableEq K]

/-- Add an amount to the balance of a key. -/
def post (k : K) (n : ℤ) (t : Table K ℤ) : Table K ℤ := t.insert k ((t.lookup k).getD 0 + n)

/-- Post a list of amounts. -/
def postAll (posts : List (K × ℤ)) (t : Table K ℤ) : Table K ℤ :=
  posts.foldl (fun t p => post p.1 p.2 t) t

/-- What a list of amounts comes to for a key. -/
def share (posts : List (K × ℤ)) (k : K) : ℤ :=
  ((posts.filter fun p => p.1 = k).map Prod.snd).sum

@[simp]
theorem share_nil (k : K) : share ([] : List (K × ℤ)) k = 0 := rfl

theorem share_cons (p : K × ℤ) (posts : List (K × ℤ)) (k : K) :
    share (p :: posts) k = (if p.1 = k then p.2 else 0) + share posts k := by
  unfold share
  by_cases h : p.1 = k
  · simp [h]
  · simp [h]

theorem share_append (posts posts' : List (K × ℤ)) (k : K) :
    share (posts ++ posts') k = share posts k + share posts' k := by
  simp [share]

/-- Amounts that all go to one key. -/
theorem share_map {A : Type} (k' k : K) (f : A → ℤ) (l : List A) :
    share (l.map fun a => (k', f a)) k = if k' = k then (l.map f).sum else 0 := by
  induction l with
  | nil => simp
  | cons a l ih =>
    rw [List.map_cons, share_cons, ih]
    by_cases h : k' = k <;> simp [h]

theorem share_flatMap {A : Type} (f : A → List (K × ℤ)) (l : List A) (k : K) :
    share (l.flatMap f) k = (l.map fun a => share (f a) k).sum := by
  induction l with
  | nil => simp
  | cons a l ih => rw [List.flatMap_cons, share_append, ih, List.map_cons, List.sum_cons]

/-! ## Posting -/

@[simp]
theorem lookup_post (k k' : K) (n : ℤ) (t : Table K ℤ) :
    (post k n t).lookup k' =
      if k' = k then some ((t.lookup k).getD 0 + n) else t.lookup k' :=
  Table.lookup_insert_ite k' k _ t

theorem total_post (k : K) (n : ℤ) (t : Table K ℤ) :
    Table.total id (post k n t) = Table.total id t + n := by
  rw [post, Table.total_insert]
  cases t.lookup k with
  | none => simp
  | some n' =>
    simp only [Option.getD_some, Option.elim_some, id_eq]
    omega

theorem postAll_append (posts posts' : List (K × ℤ)) (t : Table K ℤ) :
    postAll (posts ++ posts') t = postAll posts' (postAll posts t) := by
  simp [postAll]

theorem postAll_cons (p : K × ℤ) (posts : List (K × ℤ)) (t : Table K ℤ) :
    postAll (p :: posts) t = postAll posts (post p.1 p.2 t) := rfl

section

variable (posts : List (K × ℤ)) (t : Table K ℤ)
include posts t

/-- The balances after posting. -/
theorem getD_lookup_postAll (k : K) :
    ((postAll posts t).lookup k).getD 0 = (t.lookup k).getD 0 + share posts k := by
  induction posts generalizing t with
  | nil => simp [postAll]
  | cons p posts ih =>
    rw [postAll_cons, ih, share_cons]
    by_cases h : k = p.1
    · subst h
      simp [add_assoc]
    · simp [h, Ne.symm h]

/-- The rows of a tally: those it had and those of the keys that were posted to. -/
theorem isSome_lookup_postAll (k : K) :
    ((postAll posts t).lookup k).isSome ↔ (t.lookup k).isSome ∨ ∃ p ∈ posts, p.1 = k := by
  induction posts generalizing t with
  | nil => simp [postAll]
  | cons p posts ih =>
    rw [postAll_cons, ih]
    by_cases h : k = p.1
    · simp [h]
    · simp [h, Ne.symm h]

theorem total_postAll :
    Table.total id (postAll posts t) = Table.total id t + (posts.map Prod.snd).sum := by
  induction posts generalizing t with
  | nil => simp [postAll]
  | cons p posts ih =>
    rw [postAll_cons, ih, total_post, List.map_cons, List.sum_cons, add_assoc]

end

/-- Amounts that cancel out for every key cancel out in all. -/
theorem sum_eq_zero_of_share {posts : List (K × ℤ)} (h : ∀ k, share posts k = 0) :
    (posts.map Prod.snd).sum = 0 := by
  have htotal := total_postAll posts ∅
  rw [Table.total_empty, zero_add] at htotal
  rw [← htotal]
  apply Finset.sum_eq_zero
  intro k _
  have hk := getD_lookup_postAll posts ∅ k
  rw [h k, Finmap.lookup_empty, Option.getD_none] at hk
  cases hlookup : (postAll posts ∅).lookup k with
  | none => rfl
  | some n =>
    rw [hlookup] at hk
    exact hk

/-- Amounts that cancel out for all keys but one come to what that key gets. -/
theorem sum_eq_share {posts : List (K × ℤ)} {k : K} (h : ∀ k' ≠ k, share posts k' = 0) :
    (posts.map Prod.snd).sum = share posts k := by
  have hzero : ∀ k', share (posts ++ [(k, -share posts k)]) k' = 0 := by
    intro k'
    rw [share_append, share_cons]
    by_cases hk : k' = k
    · simp [hk]
    · simp [h k' hk, Ne.symm hk]
  have hsum := sum_eq_zero_of_share hzero
  simp only [List.map_append, List.sum_append, List.map_cons, List.map_nil, List.sum_singleton]
    at hsum
  omega

end Phoenixcoin.Lib.Tally
