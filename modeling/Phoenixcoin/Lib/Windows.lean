import Mathlib.Data.List.Sort

/-!
# Windows of a list

A page of a list: some elements are left out, and some of the following are taken. The page of a
list without repetition is the page of a filtered list only if the filter leaves the beginning of
the list as it is. Stable sorting commutes with the filter.
-/

set_option autoImplicit false

namespace Phoenixcoin.Lib

open List

variable {A : Type}

/-- The elements from a place on, at most so many. -/
def window (nFrom nCount : ℕ) (l : List A) : List A := (l.drop nFrom).take nCount

@[simp]
theorem window_zero_count (nFrom : ℕ) (l : List A) : window nFrom 0 l = [] := by simp [window]

variable {l : List A} {nCount nFrom : ℕ} {p : A → Bool}

theorem window_of_length_le (h : l.length ≤ nFrom) : window nFrom nCount l = [] := by
  simp [window, drop_of_length_le h]

/-- A window only looks at what stands before its end. -/
theorem window_take {k : ℕ} (h : nFrom + nCount ≤ k) :
    window nFrom nCount (l.take k) = window nFrom nCount l := by
  rw [window, drop_take, take_take]
  congr 1
  omega

/-- What a filter that drops something at the beginning leaves behind a place stood further back. -/
theorem mem_drop_succ_of_mem_drop_filter {n : ℕ} {a : A} (hdropped : ∃ b ∈ l.take n, p b = false)
    (h : a ∈ (l.filter p).drop n) :
    a ∈ l.drop (n + 1) := by
  obtain ⟨b, hb, hpb⟩ := hdropped
  have hshort : ((l.take n).filter p).length < n := by
    have hlt : ((l.take n).filter p).length < (l.take n).length :=
      length_filter_lt_length_iff_exists.mpr ⟨b, hb, by simp [hpb]⟩
    exact hlt.trans_le (length_take_le n l)
  rw [← take_append_drop n l, filter_append, drop_append, drop_of_length_le hshort.le] at h
  have hback : a ∈ ((l.drop n).filter p).drop 1 := by
    have hsplit : n - ((l.take n).filter p).length =
        1 + (n - ((l.take n).filter p).length - 1) := by omega
    rw [hsplit, ← drop_drop] at h
    exact mem_of_mem_drop h
  have hsub := (filter_sublist.drop 1).subset hback
  rwa [drop_drop] at hsub

/-- The first element of a window does not stand behind it again. -/
theorem window_ne_of_mem {l' : List A} (hnodup : l.Nodup) (hfrom : nFrom < l.length)
    (hcount : nCount ≠ 0) (h : ∀ a ∈ l'.drop nFrom, a ∈ l.drop (nFrom + 1)) :
    window nFrom nCount l' ≠ window nFrom nCount l := by
  intro heq
  have hdrop : l.drop nFrom = l[nFrom] :: l.drop (nFrom + 1) := drop_eq_getElem_cons hfrom
  have hmem : l[nFrom] ∈ window nFrom nCount l := by
    rw [window, hdrop, take_cons (Nat.pos_of_ne_zero hcount)]
    exact mem_cons_self
  rw [← heq] at hmem
  have hback := h _ (mem_of_mem_take hmem)
  have honce := hnodup.sublist (drop_sublist nFrom l)
  rw [hdrop, nodup_cons] at honce
  exact honce.1 hback

theorem window_filter_of_forall (h : ∀ a ∈ l.take (nFrom + nCount), p a = true) :
    window nFrom nCount (l.filter p) = window nFrom nCount l := by
  rw [← window_take le_rfl, ← window_take (l := l) le_rfl]
  congr 1
  conv_lhs => rw [← take_append_drop (nFrom + nCount) l, filter_append, filter_eq_self.mpr h]
  by_cases hlong : l.length ≤ nFrom + nCount
  · simp [drop_of_length_le hlong, take_take]
  · exact take_left' (length_take_of_le (by omega))

/-- The window of a filtered list is that of the list exactly if the filter keeps everything up to
its end, or there is nothing in the window. -/
theorem window_filter_eq_iff (hnodup : l.Nodup) (nFrom nCount : ℕ) :
    window nFrom nCount (l.filter p) = window nFrom nCount l ↔
      nCount = 0 ∨ l.length ≤ nFrom ∨ ∀ a ∈ l.take (nFrom + nCount), p a = true := by
  constructor
  · intro heq
    by_contra hnot
    simp only [not_or, not_forall, not_le] at hnot
    obtain ⟨hcount, hlong, a, ha, hp⟩ := hnot
    rw [take_add, mem_append] at ha
    rcases ha with hbefore | hinside
    · apply window_ne_of_mem hnodup hlong hcount _ heq
      intro b hb
      exact mem_drop_succ_of_mem_drop_filter ⟨a, hbefore, by simpa using hp⟩ hb
    · have hkept : a ∈ window nFrom nCount (l.filter p) := by
        rw [heq]
        exact hinside
      exact hp (of_mem_filter (mem_of_mem_drop (mem_of_mem_take hkept)))
  · rintro (hcount | hshort | hall)
    · simp [hcount]
    · rw [window_of_length_le hshort, window_of_length_le ((length_filter_le p l).trans hshort)]
    · exact window_filter_of_forall hall

/-! ## Sorting -/

section Sorting

variable (r : A → A → Prop) [DecidableRel r]

theorem filter_orderedInsert [IsTrans A r] (p : A → Bool) (a : A) (h : l.Pairwise r) :
    (l.orderedInsert r a).filter p =
      if p a then (l.filter p).orderedInsert r a else l.filter p := by
  induction l with
  | nil => cases hp : p a <;> simp [hp]
  | cons b l ih =>
    obtain ⟨hb, hl⟩ := pairwise_cons.mp h
    by_cases hab : r a b
    · have hall : ∀ c ∈ (b :: l).filter p, r a c := by
        intro c hc
        rcases mem_cons.mp (mem_of_mem_filter hc) with rfl | hc
        · exact hab
        · exact IsTrans.trans a b c hab (hb c hc)
      have hfront : ((b :: l).filter p).orderedInsert r a = a :: (b :: l).filter p := by
        cases hfilter : (b :: l).filter p with
        | nil => rfl
        | cons c rest =>
          apply orderedInsert_cons_of_le
          exact hall c (by simp [hfilter])
      rw [orderedInsert_cons_of_le r l hab, filter_cons, hfront]
    · rw [orderedInsert_of_not_le r l hab]
      cases hpb : p b with
      | true =>
        rw [filter_cons_of_pos hpb, filter_cons_of_pos hpb, ih hl]
        cases hpa : p a <;> simp [hab]
      | false =>
        rw [filter_cons_of_neg (by simp [hpb]), filter_cons_of_neg (by simp [hpb]), ih hl]

/-- A filter commutes with a stable sort. -/
theorem filter_insertionSort [IsTrans A r] [Std.Total r] (p : A → Bool) (l : List A) :
    (l.insertionSort r).filter p = (l.filter p).insertionSort r := by
  induction l with
  | nil => rfl
  | cons a l ih =>
    rw [insertionSort_cons, filter_orderedInsert r p a (pairwise_insertionSort r l), ih]
    cases hp : p a <;> simp [hp]

end Sorting

/-! ## Reading a buffer at an offset

`Spans buf off bs off'` says that the elements of `buf` from `off` up to `off'` are `bs`. A reader
that moves an offset is described by it in both directions: what it reads stands in the buffer,
and what stands in the buffer is read.
-/

section Spans

variable {α : Type} {buf bs bs₁ bs₂ : List α} {off off₁ off₂ : ℕ}

def Spans (buf : List α) (off : ℕ) (bs : List α) (off' : ℕ) : Prop :=
  off + bs.length = off' ∧ off' ≤ buf.length ∧ (buf.drop off).take bs.length = bs

/-- Two stretches that meet are one. -/
theorem Spans.append (h₁ : Spans buf off bs₁ off₁) (h₂ : Spans buf off₁ bs₂ off₂) :
    Spans buf off (bs₁ ++ bs₂) off₂ := by
  obtain ⟨hlength₁, hle₁, htake₁⟩ := h₁
  obtain ⟨hlength₂, hle₂, htake₂⟩ := h₂
  refine ⟨?_, hle₂, ?_⟩
  · rw [length_append]
    omega
  · rw [length_append, take_add, htake₁, drop_drop, hlength₁, htake₂]

/-- A stretch can be cut anywhere. -/
theorem Spans.split (h : Spans buf off (bs₁ ++ bs₂) off₂) :
    Spans buf off bs₁ (off + bs₁.length) ∧ Spans buf (off + bs₁.length) bs₂ off₂ := by
  obtain ⟨hlength, hle, htake⟩ := h
  rw [length_append] at hlength htake
  rw [take_add, drop_drop] at htake
  have hfirst : ((buf.drop off).take bs₁.length).length = bs₁.length := by
    rw [length_take, length_drop]
    omega
  obtain ⟨htake₁, htake₂⟩ := append_inj htake hfirst
  refine ⟨⟨rfl, ?_, htake₁⟩, ?_, hle, htake₂⟩
  · omega
  · omega

/-- A buffer is one stretch from its beginning to its end. -/
theorem spans_all : Spans buf 0 bs buf.length ↔ buf = bs := by
  constructor
  · rintro ⟨hlength, -, htake⟩
    rw [drop_zero, take_of_length_le (by omega)] at htake
    exact htake
  · rintro rfl
    refine ⟨?_, Nat.le_refl _, ?_⟩
    · simp
    · simp

end Spans

end Phoenixcoin.Lib
