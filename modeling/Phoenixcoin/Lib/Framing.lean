import Mathlib.Data.List.Infix

/-!
# Cutting a stream into frames

A receiver keeps the bytes that it has not used yet. A round takes a frame from the front of them,
or skips some of them, or finds that more are needed and keeps what it still wants. When a round
that has enough goes on as before with more bytes behind, and what is kept does as well as the
whole, then the frames that come out do not depend on how the stream was cut into chunks.
-/

set_option autoImplicit false

namespace Phoenixcoin.Lib

open List

/-! ## Searching -/

section Search

variable {α : Type} [BEq α] [LawfulBEq α]

/-- The position of the first occurrence of a pattern, or the length of the list. -/
def search (pattern : List α) : List α → ℕ
  | [] => 0
  | a :: l => if pattern.isPrefixOf (a :: l) then 0 else search pattern l + 1

variable {pattern l : List α}

omit [LawfulBEq α] in
theorem search_le_length (pattern l : List α) : search pattern l ≤ l.length := by
  induction l with
  | nil => simp [search]
  | cons a l ih =>
    unfold search
    split
    · exact Nat.zero_le _
    · simpa using ih

omit [LawfulBEq α] in
/-- What stands before the first occurrence does not matter to the search. -/
theorem search_drop {n : ℕ} (h : n ≤ search pattern l) :
    search pattern (l.drop n) = search pattern l - n := by
  induction l generalizing n with
  | nil => simp [search]
  | cons a l ih =>
    cases n with
    | zero => simp
    | succ n =>
      rw [drop_succ_cons]
      rw [search] at h ⊢
      split at h
      · cases h
      · next hpre =>
        rw [if_neg hpre, ih (by omega)]
        omega

/-- An occurrence that was found stays the first one when the list goes on, and an occurrence that
the end may have cut off begins less than the length of the pattern before it. -/
theorem search_append (pattern l more : List α) :
    (search pattern l + pattern.length ≤ l.length →
      search pattern (l ++ more) = search pattern l) ∧
    min (search pattern l) (l.length + 1 - pattern.length) ≤ search pattern (l ++ more) := by
  induction l with
  | nil =>
    constructor
    · intro h
      have hnil : pattern = [] := by simpa [search] using h
      cases more <;> simp [search, hnil]
    · simp [search]
  | cons a l ih =>
    rw [cons_append]
    unfold search
    by_cases hpre : pattern.isPrefixOf (a :: l)
    · have hlong : pattern.isPrefixOf (a :: (l ++ more)) := by
        rw [List.isPrefixOf_iff_prefix] at hpre ⊢
        exact hpre.trans (prefix_append (a :: l) more)
      simp [hpre, hlong]
    · by_cases hlong : pattern.isPrefixOf (a :: (l ++ more))
      · have hlength : l.length + 1 < pattern.length := by
          by_contra hle
          refine hpre ?_
          rw [List.isPrefixOf_iff_prefix] at hlong ⊢
          exact prefix_of_prefix_length_le hlong (prefix_append (a :: l) more) (by simpa using hle)
        rw [length_cons]
        omega
      · rw [if_neg hpre, if_neg hlong, length_cons]
        exact ⟨fun h => by rw [ih.1 (by omega)], by omega⟩

/-- No occurrence begins where the first letter is missing. -/
theorem search_of_forall_ne {a : α} (h : ∀ b ∈ l, a ≠ b) (pattern more : List α) :
    search (a :: pattern) (l ++ more) = l.length + search (a :: pattern) more := by
  induction l with
  | nil => simp
  | cons b l ih =>
    have hb : a ≠ b := h b List.mem_cons_self
    rw [cons_append, search, if_neg (by simp [hb]),
      ih fun c hc => h c (List.mem_cons_of_mem b hc), length_cons]
    omega

end Search

/-! ## Frames -/

/-- How a receiver uses its buffer. A round that takes nothing waits. -/
structure Framer (α β : Type) where
  next : List α → Option (Option β × List α)
  keep : List α → List α
  next_suffix : ∀ {buf frame rest}, next buf = some (frame, rest) → rest <:+ buf
  next_shorter : ∀ {buf frame rest}, next buf = some (frame, rest) → rest.length < buf.length
  next_append : ∀ {buf frame rest}, next buf = some (frame, rest) →
    ∀ more, next (buf ++ more) = some (frame, rest ++ more)
  keep_suffix : ∀ buf, keep buf <:+ buf
  next_keep : ∀ {buf}, next buf = none → ∀ more, next (keep buf ++ more) = next (buf ++ more)

/-- The frames that were handed on and the bytes that are left. A frame may end the reception, and
then no bytes are left. -/
structure Receiver (α β : Type) where
  handed : List β
  buffer : List α
  ended : Bool

namespace Framer

variable {α β : Type} (F : Framer α β) (ends : List β → Bool)

/-- The rounds until one of them waits. -/
def drain (handed : List β) (buf : List α) : Receiver α β :=
  match _h : F.next buf with
  | none => ⟨handed, F.keep buf, false⟩
  | some (none, rest) => drain handed rest
  | some (some frame, rest) =>
    if ends (handed ++ [frame]) then ⟨handed ++ [frame], [], true⟩
    else drain (handed ++ [frame]) rest
termination_by buf.length
decreasing_by all_goals exact F.next_shorter _h

/-- What a receiver does with a chunk. -/
def receive (r : Receiver α β) (chunk : List α) : Receiver α β :=
  if r.ended then r else F.drain ends r.handed (r.buffer ++ chunk)

variable {F ends} {handed : List β} {buf rest : List α}

theorem next_nil : F.next [] = none :=
  Option.eq_none_iff_forall_ne_some.mpr fun _ h => absurd (F.next_shorter h) (Nat.not_lt_zero _)

theorem drain_none (h : F.next buf = none) :
    F.drain ends handed buf = ⟨handed, F.keep buf, false⟩ := by
  rw [drain]
  split <;> simp_all

theorem drain_skip (h : F.next buf = some (none, rest)) :
    F.drain ends handed buf = F.drain ends handed rest := by
  rw [drain]
  split <;> simp_all

theorem drain_frame {frame : β} (h : F.next buf = some (some frame, rest)) :
    F.drain ends handed buf = if ends (handed ++ [frame]) then ⟨handed ++ [frame], [], true⟩
      else F.drain ends (handed ++ [frame]) rest := by
  rw [drain]
  split <;> simp_all

/-- An induction along the rounds. -/
theorem drain_induction {P : List β → List α → Prop}
    (hnone : ∀ handed buf, F.next buf = none → P handed buf)
    (hskip : ∀ handed buf rest, F.next buf = some (none, rest) → P handed rest → P handed buf)
    (hframe : ∀ handed buf frame rest, F.next buf = some (some frame, rest) →
      P (handed ++ [frame]) rest → P handed buf) (handed : List β) (buf : List α) :
    P handed buf := by
  induction hn : buf.length using Nat.strongRecOn generalizing handed buf with
  | ind n ih =>
    cases h : F.next buf with
    | none => exact hnone handed buf h
    | some result =>
      obtain ⟨frame, rest⟩ := result
      have hless : rest.length < n := hn ▸ F.next_shorter h
      cases frame with
      | none => exact hskip handed buf rest h (ih _ hless _ _ rfl)
      | some frame => exact hframe handed buf frame rest h (ih _ hless _ _ rfl)

theorem drain_prefix : handed <+: (F.drain ends handed buf).handed := by
  induction handed, buf using drain_induction (F := F) with
  | hnone handed buf h => rw [drain_none h]
  | hskip handed buf rest h ih => rwa [drain_skip h]
  | hframe handed buf frame rest h ih =>
    rw [drain_frame h]
    split
    · exact prefix_append handed [frame]
    · exact (prefix_append handed [frame]).trans ih

theorem drain_suffix : (F.drain ends handed buf).buffer <:+ buf := by
  induction handed, buf using drain_induction (F := F) with
  | hnone handed buf h =>
    rw [drain_none h]
    exact F.keep_suffix buf
  | hskip handed buf rest h ih =>
    rw [drain_skip h]
    exact ih.trans (F.next_suffix h)
  | hframe handed buf frame rest h ih =>
    rw [drain_frame h]
    split
    · exact nil_suffix
    · exact ih.trans (F.next_suffix h)

theorem drain_ended : (F.drain ends handed buf).ended → (F.drain ends handed buf).buffer = [] := by
  induction handed, buf using drain_induction (F := F) with
  | hnone handed buf h => simp [drain_none h]
  | hskip handed buf rest h ih => rwa [drain_skip h]
  | hframe handed buf frame rest h ih =>
    rw [drain_frame h]
    split
    · exact fun _ => rfl
    · exact ih

/-! ## Chunks -/

/-- Receivers that nothing to come tells apart. -/
structure Alike (F : Framer α β) (r r' : Receiver α β) : Prop where
  handed : r.handed = r'.handed
  ended : r.ended = r'.ended
  next : ∀ more, F.next (r.buffer ++ more) = F.next (r'.buffer ++ more)

variable {r r' : Receiver α β}

theorem Alike.trans {r'' : Receiver α β} (h : Alike F r r') (h' : Alike F r' r'') :
    Alike F r r'' :=
  ⟨h.handed.trans h'.handed, h.ended.trans h'.ended, fun more => (h.next more).trans (h'.next more)⟩

theorem Alike.refl (r : Receiver α β) : Alike F r r := ⟨rfl, rfl, fun _ => rfl⟩

theorem drain_alike {buf' : List α} (h : ∀ more, F.next (buf ++ more) = F.next (buf' ++ more)) :
    Alike F (F.drain ends handed buf) (F.drain ends handed buf') := by
  have hsame : F.next buf' = F.next buf := by simpa using (h []).symm
  cases hnext : F.next buf with
  | none =>
    have hnext' := hsame.trans hnext
    rw [drain_none hnext, drain_none hnext']
    refine ⟨rfl, rfl, fun more => ?_⟩
    rw [F.next_keep hnext, h more, F.next_keep hnext']
  | some result =>
    have hnext' := hsame.trans hnext
    obtain ⟨_ | frame, rest⟩ := result
    · rw [drain_skip hnext, drain_skip hnext']
      exact .refl _
    · rw [drain_frame hnext, drain_frame hnext']
      exact .refl _

theorem receive_alike (h : Alike F r r') (chunk : List α) :
    Alike F (F.receive ends r chunk) (F.receive ends r' chunk) := by
  unfold receive
  rw [h.ended, h.handed]
  split
  · exact h
  · refine drain_alike fun more => ?_
    rw [append_assoc, append_assoc, h.next]

/-- Draining a part of the bytes and then the rest is draining all of them. -/
theorem drain_append (more : List α) : Alike F (F.receive ends (F.drain ends handed buf) more)
      (F.drain ends handed (buf ++ more)) := by
  induction handed, buf using drain_induction (F := F) with
  | hnone handed buf h =>
    rw [drain_none h]
    refine drain_alike fun later => ?_
    rw [append_assoc, F.next_keep h, append_assoc]
  | hskip handed buf rest h ih =>
    rw [drain_skip h, drain_skip (F.next_append h more)]
    exact ih
  | hframe handed buf frame rest h ih =>
    rw [drain_frame h, drain_frame (F.next_append h more)]
    split
    · exact .refl _
    · exact ih

theorem receive_append (r : Receiver α β) (chunk more : List α) :
    Alike F (F.receive ends (F.receive ends r chunk) more) (F.receive ends r (chunk ++ more)) := by
  by_cases hended : r.ended
  · simp only [receive, hended, if_true]
    exact .refl _
  · have hall : F.receive ends r (chunk ++ more) =
        F.drain ends r.handed (r.buffer ++ chunk ++ more) := by
      simp [receive, hended]
    rw [hall, show F.receive ends r chunk = F.drain ends r.handed (r.buffer ++ chunk) by
      simp [receive, hended]]
    exact drain_append more

theorem foldl_receive_alike (h : Alike F r r') (chunks : List (List α)) :
    Alike F (chunks.foldl (F.receive ends) r) (chunks.foldl (F.receive ends) r') := by
  induction chunks generalizing r r' with
  | nil => exact h
  | cons chunk chunks ih => exact ih (receive_alike h chunk)

variable (chunks : List (List α))

/-- However a stream is cut, the receiver ends as if it had come in one chunk. -/
theorem receive_chunks (r : Receiver α β) (first : List α) :
    Alike F (chunks.foldl (F.receive ends) (F.receive ends r first))
      (F.receive ends r (first ++ chunks.flatten)) := by
  induction chunks generalizing first with
  | nil => simpa using Alike.refl _
  | cons chunk chunks ih =>
    have hstep : Alike F (chunks.foldl (F.receive ends)
      (F.receive ends (F.receive ends r first) chunk))
        (chunks.foldl (F.receive ends) (F.receive ends r (first ++ chunk))) :=
      foldl_receive_alike (receive_append r first chunk) chunks
    simpa using hstep.trans (ih (first ++ chunk))

/-- A receiver that has nothing yet ends as if the stream had come in one chunk. -/
theorem foldl_receive (h : r.buffer = []) (chunks : List (List α)) :
    Alike F (chunks.foldl (F.receive ends) r) (F.receive ends r chunks.flatten) := by
  have hnil : Alike F r (F.receive ends r []) := by
    unfold receive
    split
    · exact .refl r
    · next hended =>
      rw [h, append_nil, drain_none next_nil]
      exact ⟨rfl, by simpa using hended, fun more => by rw [h, F.next_keep next_nil]⟩
  exact (foldl_receive_alike hnil chunks).trans (receive_chunks chunks r [])

theorem handed_receive (r : Receiver α β) (chunk : List α) :
    r.handed <+: (F.receive ends r chunk).handed := by
  unfold receive
  split
  · exact prefix_refl _
  · exact drain_prefix

theorem handed_foldl_receive (r : Receiver α β) :
    r.handed <+: (chunks.foldl (F.receive ends) r).handed := by
  induction chunks generalizing r with
  | nil => exact prefix_refl _
  | cons chunk chunks ih => exact (handed_receive r chunk).trans (ih _)

/-- What is left at any time is the end of what has come. -/
theorem buffer_foldl_receive {received : List α}
    (h : r.buffer <:+ received) (hended : r.ended → r.buffer = []) :
    (chunks.foldl (F.receive ends) r).buffer <:+ received ++ chunks.flatten := by
  induction chunks generalizing r received with
  | nil => simpa using h
  | cons chunk chunks ih =>
    rw [foldl_cons, flatten_cons, ← append_assoc]
    by_cases hend : r.ended
    · have hsame : F.receive ends r chunk = r := by simp [receive, hend]
      rw [hsame]
      exact ih (by rw [hended hend]; exact nil_suffix) hended
    · have hdrain : F.receive ends r chunk = F.drain ends r.handed (r.buffer ++ chunk) := by
        simp [receive, hend]
      obtain ⟨front, rfl⟩ := h
      rw [hdrain]
      refine ih (drain_suffix.trans ?_) drain_ended
      rw [append_assoc]
      exact suffix_append front (r.buffer ++ chunk)

end Framer

end Phoenixcoin.Lib
