import Mathlib.Algebra.BigOperators.Group.List.Basic
import Mathlib.Tactic.NormNum
import Phoenixcoin.Lib.Decoder

/-!
# Lawful codecs

A codec writes values as bytes, computes the size of what it would write in 32-bit
arithmetic, and decodes a value from the front of a stream. It carries the laws that tie its
three walks together, so the combinators below yield lawful codecs for pairs, records,
strings, vectors and ordered collections.
-/

set_option autoImplicit false

namespace Phoenixcoin.Lib

open List Decoder

/-- A reader took `enc` from the front of `s` and left `s'`: either `s` starts with `enc`, or
the stream ended and zeros completed `enc`. -/
def Consumes (enc s s' : List UInt8) : Prop :=
  s = enc ++ s' ∨ s' = [] ∧ ∃ k, enc = s ++ replicate (k + 1) 0

theorem Consumes.nil (s : List UInt8) : Consumes [] s s := Or.inl rfl

theorem Consumes.append {enc₁ enc₂ s s₁ s₂ : List UInt8} (h₁ : Consumes enc₁ s s₁)
    (h₂ : Consumes enc₂ s₁ s₂) : Consumes (enc₁ ++ enc₂) s s₂ := by
  rcases h₁ with rfl | ⟨rfl, k, rfl⟩
  · rcases h₂ with rfl | ⟨rfl, j, rfl⟩
    · exact Or.inl (append_assoc _ _ _).symm
    · exact Or.inr ⟨rfl, j, (append_assoc _ _ _).symm⟩
  · rcases h₂ with h₂ | ⟨rfl, j, rfl⟩
    · obtain ⟨rfl, rfl⟩ := append_eq_nil_iff.mp h₂.symm
      exact Or.inr ⟨rfl, k, append_nil _⟩
    · refine Or.inr ⟨rfl, k + j + 1, ?_⟩
      rw [nil_append, append_assoc, ← replicate_add]
      congr 2
      omega

theorem consumes_readBytes (n : ℕ) (s : List UInt8) :
    Consumes (readBytes n s).1 s (readBytes n s).2 := by
  by_cases h : n ≤ s.length
  · left
    simp [readBytes, Nat.sub_eq_zero_of_le h]
  · right
    refine ⟨drop_eq_nil_of_le (by omega), n - s.length - 1, ?_⟩
    have hpos : n - s.length - 1 + 1 = n - s.length := by omega
    rw [hpos, readBytes, take_of_length_le (by omega)]

/-- A lawful codec. `Encodes` is the relation of an encoding to the value that it encodes,
`Fits` singles out the values that have one, and `elements` counts the elements of all
containers of a value. -/
structure Codec (α : Type) where
  Encodes : List UInt8 → α → Prop
  Fits : α → Prop
  elements : α → ℕ
  size : α → UInt32
  write : α → List UInt8
  decoder : Decoder α
  size_eq : ∀ x, size x = UInt32.ofNat (write x).length
  encodes_write : ∀ x, Fits x → Encodes (write x) x
  eval_append : ∀ enc x rest, Encodes enc x → decoder.eval (enc ++ rest) = some (x, rest)
  consumes_of_eval : ∀ s x s', decoder.eval s = some (x, s') →
    ∃ enc, Encodes enc x ∧ Consumes enc s s'
  elements_lt : ∀ enc x, Encodes enc x → elements x < enc.length

namespace Codec

variable {α β : Type}

/-- Decoding what was written gives the value back and leaves the trailing bytes. -/
theorem eval_write_append (c : Codec α) {x : α} (h : c.Fits x) (rest : List UInt8) :
    c.decoder.eval (c.write x ++ rest) = some (x, rest) :=
  c.eval_append _ _ _ (c.encodes_write x h)

/-- Every value has one encoding at most, the one that is written. -/
def Canonical (c : Codec α) : Prop := ∀ enc x, c.Encodes enc x → enc = c.write x

/-! ## Values of a fixed width -/

/-- A value stored in `width` bytes. -/
@[simps Encodes Fits]
def fixed (width : ℕ) (hwidth : 0 < width) (toBytes : α → List UInt8)
    (ofBytes : List UInt8 → α) (Fits : α → Prop)
    (hlength : ∀ x, (toBytes x).length = width) (hread : ∀ x, Fits x → ofBytes (toBytes x) = x) :
    Codec α where
  Encodes enc x := enc.length = width ∧ ofBytes enc = x
  Fits := Fits
  elements _ := 0
  size _ := UInt32.ofNat width
  write := toBytes
  decoder := .read width fun bs => .done (ofBytes bs)
  size_eq x := by rw [hlength]
  encodes_write x h := ⟨hlength x, hread x h⟩
  eval_append := by
    rintro enc x rest ⟨henc, rfl⟩
    rw [eval_read, readBytes_append henc, eval_done]
  consumes_of_eval := by
    rintro s x s' h
    simp only [eval_read, eval_done, Option.some.injEq, Prod.mk.injEq] at h
    obtain ⟨rfl, rfl⟩ := h
    exact ⟨_, ⟨length_readBytes width s, rfl⟩, consumes_readBytes width s⟩
  elements_lt enc x h := by rw [h.1]; exact hwidth

theorem fixed_canonical {width : ℕ} {hwidth : 0 < width} {toBytes : α → List UInt8}
    {ofBytes : List UInt8 → α} {Fits : α → Prop} {hlength : ∀ x, (toBytes x).length = width}
    {hread : ∀ x, Fits x → ofBytes (toBytes x) = x}
    (h : ∀ enc, enc.length = width → toBytes (ofBytes enc) = enc) :
    (fixed width hwidth toBytes ofBytes Fits hlength hread).Canonical := by
  rintro enc x ⟨henc, rfl⟩
  exact (h enc henc).symm

/-! ## Pairs and records -/

/-- One value after another, where the first one decides how the second one is stored. -/
@[simps Encodes Fits]
def dep (c : Codec α) (d : α → Codec β) : Codec (α × β) where
  Encodes enc x := ∃ enc₁ enc₂, enc = enc₁ ++ enc₂ ∧ c.Encodes enc₁ x.1 ∧ (d x.1).Encodes enc₂ x.2
  Fits x := c.Fits x.1 ∧ (d x.1).Fits x.2
  elements x := c.elements x.1 + (d x.1).elements x.2
  size x := c.size x.1 + (d x.1).size x.2
  write x := c.write x.1 ++ (d x.1).write x.2
  decoder := c.decoder.bind fun x => (d x).decoder.map fun y => (x, y)
  size_eq x := by rw [c.size_eq, (d x.1).size_eq, length_append, UInt32.ofNat_add]
  encodes_write x h := ⟨_, _, rfl, c.encodes_write _ h.1, (d x.1).encodes_write _ h.2⟩
  eval_append := by
    rintro _ ⟨x, y⟩ rest ⟨enc₁, enc₂, rfl, h₁, h₂⟩
    rw [append_assoc, eval_bind_eq_some]
    refine ⟨x, _, c.eval_append _ _ _ h₁, ?_⟩
    rw [eval_map_eq_some]
    exact ⟨y, (d x).eval_append _ _ _ h₂, rfl⟩
  consumes_of_eval := by
    rintro s ⟨x, y⟩ s' h
    obtain ⟨x₁, s₁, hx, hpair⟩ := eval_bind_eq_some.mp h
    obtain ⟨y₁, hy, he⟩ := eval_map_eq_some.mp hpair
    obtain ⟨rfl, rfl⟩ := Prod.mk.inj he
    obtain ⟨enc₁, henc₁, hs₁⟩ := c.consumes_of_eval _ _ _ hx
    obtain ⟨enc₂, henc₂, hs₂⟩ := (d x₁).consumes_of_eval _ _ _ hy
    exact ⟨_, ⟨enc₁, enc₂, rfl, henc₁, henc₂⟩, hs₁.append hs₂⟩
  elements_lt := by
    rintro _ x ⟨enc₁, enc₂, rfl, h₁, h₂⟩
    have hlt₁ := c.elements_lt _ _ h₁
    have hlt₂ := (d x.1).elements_lt _ _ h₂
    rw [length_append]
    omega

/-- One value after another. -/
abbrev pair (c : Codec α) (d : Codec β) : Codec (α × β) := c.dep fun _ => d

variable {c : Codec α} {count : Codec ℕ} {xs : List α}

/-- One value after another. -/
theorem Canonical.pair {d : Codec β} (hc : c.Canonical) (hd : d.Canonical) :
    (c.pair d).Canonical := by
  rintro _ x ⟨enc₁, enc₂, rfl, h₁, h₂⟩
  rw [hc _ _ h₁, hd _ _ h₂]
  rfl

/-- Values of another type that stand for the values of `c`, such as a record for its fields. -/
@[simps Encodes Fits]
def embed (c : Codec α) (e : α → β) (back : β → α) (hback : ∀ x, back (e x) = x) : Codec β where
  Encodes enc y := e (back y) = y ∧ c.Encodes enc (back y)
  Fits y := e (back y) = y ∧ c.Fits (back y)
  elements y := c.elements (back y)
  size y := c.size (back y)
  write y := c.write (back y)
  decoder := c.decoder.map e
  size_eq y := c.size_eq _
  encodes_write y h := ⟨h.1, c.encodes_write _ h.2⟩
  eval_append enc y rest h := by
    rw [eval_map_eq_some]
    exact ⟨_, c.eval_append _ _ _ h.2, h.1⟩
  consumes_of_eval s y s' h := by
    obtain ⟨x, hx, rfl⟩ := eval_map_eq_some.mp h
    obtain ⟨enc, henc, hs⟩ := c.consumes_of_eval _ _ _ hx
    exact ⟨enc, by rw [hback]; exact ⟨rfl, henc⟩, hs⟩
  elements_lt enc y h := c.elements_lt _ _ h.2

theorem Canonical.embed (hc : c.Canonical) (e : α → β) (back : β → α) (hback : ∀ x, back (e x) = x)
    :
    (c.embed e back hback).Canonical :=
  fun enc y h => hc enc (back y) h.2

/-- Values that a check behind the decoder lets through. -/
@[simps Encodes Fits]
def filter (c : Codec α) (p : α → Bool) : Codec α where
  Encodes enc x := p x ∧ c.Encodes enc x
  Fits x := p x ∧ c.Fits x
  elements := c.elements
  size := c.size
  write := c.write
  decoder := c.decoder.bind fun x => if p x then .done x else .fail
  size_eq := c.size_eq
  encodes_write x h := ⟨h.1, c.encodes_write x h.2⟩
  eval_append enc x rest h := by
    rw [eval_bind_eq_some]
    exact ⟨x, rest, c.eval_append _ _ _ h.2, by rw [if_pos h.1, eval_done]⟩
  consumes_of_eval s x s' h := by
    obtain ⟨x₁, s₁, hx, h⟩ := eval_bind_eq_some.mp h
    by_cases hp : p x₁
    · simp only [hp, if_true, eval_done, Option.some.injEq, Prod.mk.injEq] at h
      obtain ⟨rfl, rfl⟩ := h
      obtain ⟨enc, henc, hs⟩ := c.consumes_of_eval _ _ _ hx
      exact ⟨enc, ⟨hp, henc⟩, hs⟩
    · simp [hp] at h
  elements_lt enc x h := c.elements_lt _ _ h.2

/-- A field that is written with a given value and whose value is dropped when it is read. -/
@[simps Encodes Fits]
def header (d : Codec β) (y : β) (hy : d.Fits y) (c : Codec α) : Codec α where
  Encodes enc x := ∃ y, (d.pair c).Encodes enc (y, x)
  Fits x := c.Fits x
  elements := c.elements
  size x := (d.pair c).size (y, x)
  write x := (d.pair c).write (y, x)
  decoder := (d.pair c).decoder.map Prod.snd
  size_eq x := (d.pair c).size_eq _
  encodes_write x h := ⟨y, (d.pair c).encodes_write (y, x) ⟨hy, h⟩⟩
  eval_append := by
    rintro enc x rest ⟨z, h⟩
    rw [eval_map_eq_some]
    exact ⟨_, (d.pair c).eval_append _ _ _ h, rfl⟩
  consumes_of_eval s x s' h := by
    obtain ⟨⟨z, x₁⟩, hx, rfl⟩ := eval_map_eq_some.mp h
    obtain ⟨enc, henc, hs⟩ := (d.pair c).consumes_of_eval _ _ _ hx
    exact ⟨enc, ⟨z, henc⟩, hs⟩
  elements_lt := by
    rintro enc x ⟨z, h⟩
    have hlt := (d.pair c).elements_lt _ _ h
    simp only [dep] at hlt
    omega

/-! ## Strings -/

/-- Bytes behind their number, read in blocks of at most `chunk`. -/
@[simps Encodes Fits]
def bytes (count : Codec ℕ) (chunk : ℕ) (hchunk : 0 < chunk) : Codec (List UInt8) where
  Encodes enc bs := ∃ head, enc = head ++ bs ∧ count.Encodes head bs.length
  Fits bs := count.Fits bs.length
  elements bs := bs.length
  size bs := count.size bs.length + UInt32.ofNat bs.length
  write bs := count.write bs.length ++ bs
  decoder := count.decoder.bind fun n => .byteBlocks chunk n n
  size_eq bs := by rw [count.size_eq, length_append, UInt32.ofNat_add]
  encodes_write bs h := ⟨_, rfl, count.encodes_write _ h⟩
  eval_append := by
    rintro _ bs rest ⟨head, rfl, h⟩
    rw [append_assoc, eval_bind_eq_some]
    refine ⟨_, _, count.eval_append _ _ _ h, ?_⟩
    rw [eval_byteBlocks hchunk _ le_rfl, readBytes_append rfl]
  consumes_of_eval s bs s' h := by
    obtain ⟨n, s₁, hcount, h⟩ := eval_bind_eq_some.mp h
    rw [eval_byteBlocks hchunk _ le_rfl, Option.some.injEq] at h
    obtain ⟨head, hhead, hs⟩ := count.consumes_of_eval _ _ _ hcount
    have hconsumes := consumes_readBytes n s₁
    rw [h] at hconsumes
    have hlength : bs.length = n := by rw [← length_readBytes n s₁, h]
    exact ⟨head ++ bs, ⟨head, rfl, hlength ▸ hhead⟩, hs.append hconsumes⟩
  elements_lt := by
    rintro _ bs ⟨head, rfl, h⟩
    have hlt := count.elements_lt _ _ h
    rw [length_append]
    omega

/-- Bytes behind their number, read in blocks of at most `chunk`. -/
theorem Canonical.bytes (hcount : count.Canonical) (chunk : ℕ) (hchunk : 0 < chunk) :
    (bytes count chunk hchunk).Canonical := by
  rintro _ bs ⟨head, rfl, h⟩
  rw [hcount _ _ h]
  rfl

/-! ## Lists -/

theorem eval_many_flatten {encs : List (List UInt8)} (h : Forall₂ c.Encodes encs xs)
    (rest : List UInt8) :
    (c.decoder.many xs.length).eval (encs.flatten ++ rest) = some (xs, rest) := by
  induction h with
  | nil => rfl
  | cons hx _ ih =>
    rw [length_cons, flatten_cons, append_assoc, many, eval_bind_eq_some]
    refine ⟨_, _, c.eval_append _ _ _ hx, ?_⟩
    rw [eval_map_eq_some]
    exact ⟨_, ih, rfl⟩

theorem consumes_of_eval_many {n : ℕ} {s s' : List UInt8}
    (h : (c.decoder.many n).eval s = some (xs, s')) :
    xs.length = n ∧ ∃ encs, Forall₂ c.Encodes encs xs ∧ Consumes encs.flatten s s' := by
  induction n generalizing s xs with
  | zero =>
    obtain ⟨rfl, rfl⟩ := h
    exact ⟨rfl, [], .nil, Consumes.nil _⟩
  | succ n ih =>
    obtain ⟨x, s₁, hx, h⟩ := eval_bind_eq_some.mp h
    obtain ⟨ys, hxs, rfl⟩ := eval_map_eq_some.mp h
    obtain ⟨enc, henc, hs⟩ := c.consumes_of_eval _ _ _ hx
    obtain ⟨hlength, encs, hencs, hrest⟩ := ih hxs
    exact ⟨by rw [length_cons, hlength], enc :: encs, .cons henc hencs, hs.append hrest⟩

theorem forall₂_write (h : ∀ x ∈ xs, c.Fits x) : Forall₂ c.Encodes (xs.map c.write) xs := by
  rw [forall₂_map_left_iff, forall₂_same]
  exact fun x hx => c.encodes_write x (h x hx)

theorem elements_forall₂_le {encs : List (List UInt8)} (h : Forall₂ c.Encodes encs xs) :
    xs.length + (xs.map c.elements).sum ≤ encs.flatten.length := by
  induction h with
  | nil => simp
  | cons hx _ ih =>
    have hlt := c.elements_lt _ _ hx
    simp only [length_cons, map_cons, sum_cons, flatten_cons, length_append]
    omega

theorem foldl_size_eq (c : Codec α) (n : ℕ) (xs : List α) :
    xs.foldl (fun nSize x => nSize + c.size x) (UInt32.ofNat n) =
      UInt32.ofNat (n + (xs.map c.write).flatten.length) := by
  induction xs generalizing n with
  | nil => simp
  | cons x xs ih =>
    rw [foldl_cons, c.size_eq, ← UInt32.ofNat_add, ih, map_cons, flatten_cons,
      length_append, Nat.add_assoc]

/-- Values behind their number. -/
@[simps Encodes Fits]
def list (count : Codec ℕ) (c : Codec α) : Codec (List α) where
  Encodes enc xs := ∃ head encs, enc = head ++ encs.flatten ∧ count.Encodes head xs.length ∧
    Forall₂ c.Encodes encs xs
  Fits xs := count.Fits xs.length ∧ ∀ x ∈ xs, c.Fits x
  elements xs := xs.length + (xs.map c.elements).sum
  size xs := xs.foldl (fun nSize x => nSize + c.size x) (count.size xs.length)
  write xs := count.write xs.length ++ (xs.map c.write).flatten
  decoder := count.decoder.bind fun n => c.decoder.many n
  size_eq xs := by rw [count.size_eq, foldl_size_eq, length_append]
  encodes_write xs h := ⟨_, _, rfl, count.encodes_write _ h.1, forall₂_write h.2⟩
  eval_append := by
    rintro _ xs rest ⟨head, encs, rfl, h, hencs⟩
    rw [append_assoc, eval_bind_eq_some]
    exact ⟨_, _, count.eval_append _ _ _ h, eval_many_flatten hencs rest⟩
  consumes_of_eval s xs s' h := by
    obtain ⟨n, s₁, hcount, h⟩ := eval_bind_eq_some.mp h
    obtain ⟨head, hhead, hs⟩ := count.consumes_of_eval _ _ _ hcount
    obtain ⟨hlength, encs, hencs, hrest⟩ := consumes_of_eval_many h
    exact ⟨_, ⟨head, encs, rfl, hlength ▸ hhead, hencs⟩, hs.append hrest⟩
  elements_lt := by
    rintro _ xs ⟨head, encs, rfl, h, hencs⟩
    have hlt := count.elements_lt _ _ h
    have hle := elements_forall₂_le hencs
    rw [length_append]
    omega

/-- Values behind their number. -/
theorem Canonical.list (hcount : count.Canonical) (hc : c.Canonical) :
    (list count c).Canonical := by
  rintro _ xs ⟨head, encs, rfl, h, hencs⟩
  have hmap : encs = xs.map c.write := by
    rw [← forall₂_eq_eq_eq, forall₂_map_right_iff]
    exact hencs.imp hc
  rw [hcount _ _ h, hmap]
  rfl

/-- Values behind their number, read in blocks of at most `chunk`. -/
@[simps Encodes Fits]
def vector (count : Codec ℕ) (chunk : ℕ) (hchunk : 0 < chunk) (c : Codec α) : Codec (List α) where
  Encodes := (list count c).Encodes
  Fits := (list count c).Fits
  elements := (list count c).elements
  size := (list count c).size
  write := (list count c).write
  decoder := count.decoder.bind fun n => .blocks chunk c.decoder n n
  size_eq := (list count c).size_eq
  encodes_write := (list count c).encodes_write
  eval_append := by
    simp only [blocks_eq_many hchunk _ le_rfl]
    exact (list count c).eval_append
  consumes_of_eval := by
    simp only [blocks_eq_many hchunk _ le_rfl]
    exact (list count c).consumes_of_eval
  elements_lt := (list count c).elements_lt

theorem Canonical.vector (hcount : count.Canonical) (hc : c.Canonical) (chunk : ℕ)
    (hchunk : 0 < chunk) :
    (vector count chunk hchunk c).Canonical :=
  Canonical.list hcount hc

/-! ## Ordered collections -/

/-- A collection that is built by inserting one element after another and written in the
order in which it keeps them. An insertion adds the element or leaves the collection alone. -/
@[simps Encodes Fits]
def collection (count : Codec ℕ) (c : Codec α) (insert : List α → α → List α)
    (hinsert : ∀ xs x, insert xs x = xs ∨ (insert xs x).Perm (x :: xs)) : Codec (List α) where
  Encodes enc ys := ∃ xs, (list count c).Encodes enc xs ∧ xs.foldl insert [] = ys
  Fits ys := (list count c).Fits ys ∧ ys.foldl insert [] = ys
  elements := (list count c).elements
  size := (list count c).size
  write := (list count c).write
  decoder := (list count c).decoder.map fun xs => xs.foldl insert []
  size_eq := (list count c).size_eq
  encodes_write ys h := ⟨ys, (list count c).encodes_write ys h.1, h.2⟩
  eval_append := by
    rintro enc _ rest ⟨xs, h, rfl⟩
    rw [eval_map_eq_some]
    exact ⟨_, (list count c).eval_append _ _ _ h, rfl⟩
  consumes_of_eval s ys s' h := by
    obtain ⟨xs, hxs, rfl⟩ := eval_map_eq_some.mp h
    obtain ⟨enc, henc, hs⟩ := (list count c).consumes_of_eval _ _ _ hxs
    exact ⟨enc, ⟨xs, henc, rfl⟩, hs⟩
  elements_lt := by
    rintro enc _ ⟨xs, h, rfl⟩
    have hlt := (list count c).elements_lt _ _ h
    have hle : ∀ zs : List α, (xs.foldl insert zs).length +
        ((xs.foldl insert zs).map c.elements).sum ≤
          xs.length + (xs.map c.elements).sum + (zs.length + (zs.map c.elements).sum) := by
      clear h hlt
      induction xs with
      | nil => simp
      | cons x xs ih =>
        intro zs
        have hstep : (insert zs x).length + ((insert zs x).map c.elements).sum ≤
            1 + c.elements x + (zs.length + (zs.map c.elements).sum) := by
          rcases hinsert zs x with hsame | hperm
          · rw [hsame]
            omega
          · rw [hperm.length_eq, (hperm.map c.elements).sum_eq]
            simp only [length_cons, map_cons, sum_cons]
            omega
        have hrest := ih (insert zs x)
        simp only [foldl_cons, length_cons, map_cons, sum_cons]
        omega
    have hfold := hle []
    simp only [list, length_nil, map_nil, sum_nil, Nat.add_zero] at hlt hfold ⊢
    omega

end Codec

end Phoenixcoin.Lib
