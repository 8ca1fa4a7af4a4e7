import Phoenixcoin.Analysis.DumpLines
import Phoenixcoin.Lib.DigitGroups
import Phoenixcoin.Program.BaseCodecs

/-!
# Base64 and base32 are exact

An encoder turns bytes into digits of six or five bits, a decoder turns them back; `mode` says how
many bits are left over. A codec is exact since both readings are unique.
-/

set_option autoImplicit false

namespace Phoenixcoin.Analysis

open Lib Program List Option

/-- `vchRet` and `left` hold the digits that were read. -/
def HasRead (k : ℕ) (rbits : ℕ → ℕ) (ins : List ℕ) : valtype × ℕ × ℕ → Prop
  | (vchRet, mode, left) => ∃ rest,
    Regrouped k 8 ins (vchRet.map UInt8.toNat) (rbits mode) rest ∧ (mode ≠ 0 → left = rest)

/-- `strRet` and `left` hold the bytes that were written. -/
def HasWritten (k : ℕ) (char : ℕ → UInt8) (wbits : ℕ → ℕ) (ins : valtype) : Text × ℕ × ℕ → Prop
  | (strRet, mode, left) => ∃ ds rest, strRet = ds.map char ∧
    Regrouped 8 k (ins.map UInt8.toNat) ds (wbits mode) rest ∧
    (mode ≠ 0 → left = rest * 2 ^ (k - wbits mode))

/-- An encoder and its decoder: their loops, their characters and how many bits a mode leaves. -/
structure BaseCodec where
  k : ℕ
  char : ℕ → UInt8
  table : UInt8 → Option ℕ
  fold : UInt8 → UInt8
  write : Text × ℕ × ℕ → UInt8 → Text × ℕ × ℕ
  read : valtype × ℕ × ℕ → ℕ → valtype × ℕ × ℕ
  filling : ℕ → ℕ
  padding : ℕ → Option ℕ
  wbits : ℕ → ℕ
  rbits : ℕ → ℕ
  k_pos : 0 < k
  k_lt : k < 8
  table_char : ∀ d < 2 ^ k, table (char d) = some d
  char_table : ∀ {c d}, table c = some d → d < 2 ^ k ∧ char d = fold c
  table_pad : table 61 = none
  table_nul : table 0 = none
  fold_pad : fold 61 = 61
  wbits_zero : wbits 0 = 0
  rbits_zero : rbits 0 = 0
  wbits_lt : ∀ m, wbits m < k
  rbits_lt : ∀ m, rbits m < 8
  wbits_pos : ∀ {m}, m ≠ 0 → 0 < wbits m
  rbits_pos : ∀ {m}, m ≠ 0 → 0 < rbits m
  padding_filling : ∀ {m m'}, m ≠ 0 → wbits m + rbits m' = k → padding m' = some (filling m)
  padding_lt : ∀ {m n}, padding m = some n → rbits m < k
  has_written : ∀ {ins state} (enc : UInt8), HasWritten k char wbits ins state →
    HasWritten k char wbits (ins ++ [enc]) (write state enc)
  has_read : ∀ {ins state} {dec : ℕ}, dec < 2 ^ k → HasRead k rbits ins state →
    HasRead k rbits (ins ++ [dec]) (read state dec)

namespace BaseCodec

variable (B : BaseCodec) {b : valtype} {ds : List ℕ} {p s : Text}

def encode (pch : valtype) : Text :=
  let (strRet, mode, left) := pch.foldl B.write ([], 0, 0)
  if mode = 0 then strRet else strRet ++ B.char left :: replicate (B.filling mode) 61

theorem hasWritten (b : valtype) :
    HasWritten B.k B.char B.wbits b (b.foldl B.write ([], 0, 0)) := by
  induction b using reverseRecOn with
  | nil =>
    refine ⟨[], 0, rfl, ?_, fun h => absurd rfl h⟩
    rw [B.wbits_zero]
    exact Regrouped.nil 8 B.k
  | append_singleton b enc ih =>
    rw [foldl_concat]
    exact B.has_written enc ih

theorem hasRead (hds : ∀ d ∈ ds, d < 2 ^ B.k) :
    HasRead B.k B.rbits ds (ds.foldl B.read ([], 0, 0)) := by
  induction ds using reverseRecOn with
  | nil =>
    refine ⟨0, ?_, fun h => absurd rfl h⟩
    rw [B.rbits_zero]
    exact Regrouped.nil B.k 8
  | append_singleton ds dec ih =>
    rw [foldl_concat]
    exact B.has_read (hds dec (by simp)) (ih fun d hd => hds d (by simp [hd]))

/-- What an encoder writes: characters that stand for all bytes, and the padding for what fills the
last of them up. -/
theorem encode_eq (b : valtype) : ∃ ds t n, B.encode b = ds.map B.char ++ replicate n 61 ∧
    Regrouped B.k 8 ds (b.map UInt8.toNat) t 0 ∧ (∀ d ∈ ds, d < 2 ^ B.k) ∧ t < B.k ∧
    (t = 0 → n = 0) ∧ ∀ mode, mode ≠ 0 → B.rbits mode = t → B.padding mode = some n := by
  have hbytes : ∀ d ∈ b.map UInt8.toNat, d < 2 ^ 8 := by
    intro d hd
    obtain ⟨c, -, rfl⟩ := mem_map.mp hd
    exact c.toNat_lt
  have hwritten := B.hasWritten b
  unfold encode
  generalize b.foldl B.write ([], 0, 0) = state at hwritten ⊢
  obtain ⟨strRet, mode, left⟩ := state
  obtain ⟨ds, rest, rfl, hgroups, hleft⟩ := hwritten
  dsimp only at hgroups ⊢
  by_cases hmode : mode = 0
  · subst hmode
    rw [B.wbits_zero] at hgroups
    refine ⟨ds, 0, 0, ?_, hgroups.turn hbytes, hgroups.small, B.k_pos, fun _ => rfl, ?_⟩
    · rw [if_pos rfl, replicate_zero, append_nil]
    · intro mode hne hzero
      exact absurd hzero (B.rbits_pos hne).ne'
  · have hfill := Nat.add_sub_cancel' (B.wbits_lt mode).le
    obtain ⟨hfilled, hlt⟩ := hgroups.fill hbytes hfill
    have hpos := B.wbits_pos hmode
    rw [← hleft hmode] at hfilled hlt
    refine ⟨ds ++ [left], B.k - B.wbits mode, B.filling mode, ?_, hfilled, ?_, by omega, ?_, ?_⟩
    · rw [if_neg hmode, map_append, append_assoc]
      rfl
    · exact forall_mem_append.mpr ⟨hgroups.small, forall_mem_singleton.mpr hlt⟩
    · have := B.wbits_lt mode
      omega
    · exact fun mode' _ heq => B.padding_filling hmode (by omega)

theorem decodeLoop_eq (s : Text) (state : valtype × ℕ × ℕ) :
    decodeLoop B.table B.read s state =
      some (((s.takeWhile fun c => (B.table c).isSome).filterMap B.table).foldl B.read state,
        s.dropWhile fun c => (B.table c).isSome) := by
  induction s generalizing state with
  | nil =>
    rw [decodeLoop, B.table_nul]
    rfl
  | cons c s ih =>
    unfold decodeLoop
    cases hc : B.table c with
    | none => simp [hc]
    | some dec =>
      dsimp only
      rw [ih, takeWhile_cons_of_pos (by rw [hc]; rfl),
        dropWhile_cons_of_pos (by rw [hc]; rfl), filterMap_cons_some hc]
      rfl

theorem decodeLoop_chars (hds : ∀ d ∈ ds, d < 2 ^ B.k) (n : ℕ) (state : valtype × ℕ × ℕ) :
    decodeLoop B.table B.read (ds.map B.char ++ replicate n 61) state =
      some (ds.foldl B.read state, replicate n 61) := by
  have hchars : ∀ c ∈ ds.map B.char, (B.table c).isSome := by
    intro c hc
    obtain ⟨d, hd, rfl⟩ := mem_map.mp hc
    rw [B.table_char d (hds d hd)]
    rfl
  have hpad : ∀ c ∈ (replicate n (61 : UInt8)).head?, (B.table c).isSome = false := by
    intro c hc
    rw [eq_of_mem_replicate (mem_of_mem_head? hc), B.table_pad]
    rfl
  have hback : (ds.map B.char).filterMap B.table = ds := by
    rw [filterMap_map]
    exact (filterMap_congr fun d hd => B.table_char d (hds d hd)).trans filterMap_some
  obtain ⟨htake, hdrop⟩ := takeWhile_dropWhile_append hchars hpad
  rw [decodeLoop_eq, htake, hdrop, hback]

theorem badPadding_spec (p : Text) (n : ℕ) {i : ℕ} (hi : i ≤ p.length) :
    ∃ bad, badPadding B.table p n i = some bad ∧
      (bad = false → replicate n 61 <+: p.drop i) := by
  have hlt : i < (p ++ [0]).length := by
    rw [length_append]
    exact Nat.lt_succ_of_le hi
  induction n generalizing i with
  | zero =>
    rw [badPadding, getElem?_eq_getElem hlt]
    exact ⟨_, rfl, fun _ => nil_prefix⟩
  | succ n ih =>
    rw [badPadding, getElem?_eq_getElem hlt]
    dsimp only [bind_eq_bind, bind_some]
    by_cases hpad : (p ++ [0])[i] = 61
    · rw [if_neg (not_not.mpr hpad)]
      rcases hi.lt_or_eq with hin | rfl
      · obtain ⟨bad, heq, hbegins⟩ := ih hin (by simpa using hin)
        rw [getElem_append_left hin] at hpad
        refine ⟨bad, heq, fun hbad => ?_⟩
        rw [drop_eq_getElem_cons hin, hpad]
        exact cons_prefix_cons.mpr ⟨rfl, hbegins hbad⟩
      · rw [getElem_concat_length rfl] at hpad
        cases hpad
    · rw [if_pos hpad]
      exact ⟨true, rfl, fun h => by cases h⟩

theorem badPadding_replicate {n m i : ℕ} (h : i + m = n) :
    badPadding B.table (replicate n 61) m i = some false := by
  subst h
  induction m generalizing i with
  | zero =>
    unfold badPadding
    simp [B.table_nul]
  | succ m ih =>
    unfold badPadding
    have hmore := ih (i := i + 1)
    rw [Nat.add_right_comm i 1 m, Nat.add_assoc] at hmore
    simpa using hmore

theorem decode_encode (b : valtype) :
    decodeBase B.table B.read B.padding (B.encode b) = some (b, false) := by
  obtain ⟨ds, t, n, hencode, hgroups, hds, ht, -, hpadding⟩ := B.encode_eq b
  have hread := B.hasRead hds
  rw [hencode, decodeBase, B.decodeLoop_chars hds]
  dsimp only [bind_eq_bind, bind_some]
  generalize ds.foldl B.read ([], 0, 0) = state at hread ⊢
  obtain ⟨vchRet, mode, left⟩ := state
  obtain ⟨rest, hreads, hleft⟩ := hread
  obtain ⟨hbytes, hbits, rfl⟩ := hreads.unique (by decide) hgroups (B.rbits_lt mode)
    (ht.trans B.k_lt)
  have hb : vchRet = b := map_injective_iff.mpr (fun _ _ => UInt8.toNat_inj.mp) hbytes
  subst hb
  by_cases hmode : mode = 0
  · rw [if_pos hmode]
    rfl
  · rw [if_neg hmode, hpadding mode hmode hbits]
    dsimp only
    rw [if_neg (not_not.mpr (hleft hmode)), B.badPadding_replicate (Nat.zero_add n)]
    rfl

theorem decode_spec (s : Text) : ∃ r fInvalid,
    decodeBase B.table B.read B.padding s = some (r, fInvalid) ∧
      (fInvalid = false → B.encode r <+: s.map B.fold) := by
  have hloop := B.decodeLoop_eq s ([], 0, 0)
  have hsplit := takeWhile_append_dropWhile (p := fun c => (B.table c).isSome) (l := s)
  have hall : ∀ c ∈ s.takeWhile fun c => (B.table c).isSome, (B.table c).isSome :=
    fun c hc => mem_takeWhile_imp (p := fun c => (B.table c).isSome) hc
  generalize (s.takeWhile fun c => (B.table c).isSome) = q,
    (s.dropWhile fun c => (B.table c).isSome) = p at hloop hsplit hall
  subst hsplit
  have hchars : (∀ d ∈ q.filterMap B.table, d < 2 ^ B.k) ∧
      (q.filterMap B.table).map B.char = q.map B.fold := by
    clear hloop
    induction q with
    | nil => exact ⟨fun d h => (by cases h), rfl⟩
    | cons c q ih =>
      obtain ⟨hc, hq⟩ := forall_mem_cons.mp hall
      obtain ⟨d, hd⟩ := isSome_iff_exists.mp hc
      obtain ⟨hlt, hchar⟩ := B.char_table hd
      obtain ⟨hsmall, hmap⟩ := ih hq
      rw [filterMap_cons_some hd, map_cons, hchar, hmap]
      exact ⟨forall_mem_cons.mpr ⟨hlt, hsmall⟩, rfl⟩
  obtain ⟨hds, hmap⟩ := hchars
  have hread := B.hasRead hds
  rw [decodeBase, hloop]
  dsimp only [bind_eq_bind, bind_some]
  generalize (q.filterMap B.table).foldl B.read ([], 0, 0) = state at hread ⊢
  obtain ⟨vchRet, mode, left⟩ := state
  obtain ⟨rest, hreads, hleft⟩ := hread
  have hsame (ht : B.rbits mode < B.k) (hrest : rest = 0) :
      ∃ n, B.encode vchRet = q.map B.fold ++ replicate n 61 ∧
        (B.rbits mode = 0 → n = 0) ∧ (mode ≠ 0 → B.padding mode = some n) := by
    obtain ⟨ds, t, n, hencode, hgroups, hsmall, hlt, hzero, hpadding⟩ := B.encode_eq vchRet
    rw [hrest] at hreads
    obtain ⟨rfl, rfl⟩ := hgroups.inputs_unique B.k_pos hreads hlt ht hsmall hds
    exact ⟨n, by rw [hencode, hmap], hzero, fun hne => hpadding mode hne rfl⟩
  rw [map_append]
  by_cases hmode : mode = 0
  · rw [if_pos hmode]
    refine ⟨vchRet, false, rfl, fun _ => ?_⟩
    have hbits : B.rbits mode = 0 := by rw [hmode, B.rbits_zero]
    have hrest := hreads.rest_lt
    rw [hbits] at hrest
    obtain ⟨n, hencode, hzero, -⟩ := hsame (hbits ▸ B.k_pos) (Nat.lt_one_iff.mp hrest)
    rw [hencode, hzero hbits]
    exact (prefix_append_right_inj _).mpr nil_prefix
  · rw [if_neg hmode]
    cases hpadding : B.padding mode with
    | none => exact ⟨vchRet, true, rfl, fun h => by cases h⟩
    | some n =>
      dsimp only
      by_cases hzero : left = 0
      · rw [if_neg (not_not.mpr hzero)]
        obtain ⟨bad, hbad, hbegins⟩ := B.badPadding_spec p n (Nat.zero_le _)
        rw [hbad]
        refine ⟨vchRet, bad, rfl, fun hfalse => ?_⟩
        obtain ⟨n', hencode, -, hsome⟩ := hsame (B.padding_lt hpadding)
          ((hleft hmode).symm.trans hzero)
        obtain rfl : n = n' := Option.some.inj (hpadding.symm.trans (hsome hmode))
        have hfold := (hbegins hfalse).map B.fold
        rw [map_replicate, B.fold_pad] at hfold
        rw [hencode]
        exact (prefix_append_right_inj _).mpr hfold
      · rw [if_pos hzero]
        exact ⟨vchRet, true, rfl, fun h => by cases h⟩

end BaseCodec

/-! ## The two codecs -/

theorem or_eq_add {x : ℕ} (a t : ℕ) (h : x < 2 ^ t) : a * 2 ^ t ||| x = a * 2 ^ t + x := by
  rw [← Nat.shiftLeft_eq, Nat.shiftLeft_add_eq_or_of_lt h]

section Steps

variable {w w' k r r' rest d mode left : ℕ} {ins outs : List ℕ} {vchRet b : valtype}
  {strRet : Text} {char : ℕ → UInt8} (bits : ℕ → ℕ) (m : ℕ) (enc : UInt8)

/-- A digit is written from what is left over and the first bits of the next one. -/
theorem push_digit (h : Regrouped w w' ins outs r rest) (hd : d < 2 ^ w) (hbits : w + r = w' + r')
    (hle : r' ≤ w) : Regrouped w w' (ins ++ [d])
      (outs ++ [rest * 2 ^ (w - r') ||| d / 2 ^ r']) r' (d % 2 ^ r') := by
  have hfed := h.feed hd
  rw [hbits] at hfed
  have hemitted := hfed.emit
  have hsplit : 2 ^ w = 2 ^ (w - r') * 2 ^ r' := by rw [← pow_add, Nat.sub_add_cancel hle]
  have hlow : d / 2 ^ r' < 2 ^ (w - r') :=
    Nat.div_lt_of_lt_mul (hd.trans_eq (hsplit.trans (mul_comm _ _)))
  rw [hsplit, ← mul_assoc, Nat.mul_add_mod', mul_comm _ (2 ^ r'),
    Nat.mul_add_div (Nat.two_pow_pos r')] at hemitted
  rw [or_eq_add _ _ hlow]
  exact hemitted

section

variable (h : HasRead k bits ins (vchRet, mode, left)) (hmode : mode ≠ 0) (hd : d < 2 ^ k)
include h hmode hd

theorem read_byte (hbits : k + bits mode = 8 + bits m) (hle : bits m ≤ k) :
    HasRead k bits (ins ++ [d])
      (vchRet ++ [UInt8.ofNat (left * 2 ^ (k - bits m) ||| d / 2 ^ bits m)], m,
        d % 2 ^ bits m) := by
  obtain ⟨rest, hgroups, hleft⟩ := h
  have hpushed := push_digit hgroups hd hbits hle
  refine ⟨_, ?_, fun _ => rfl⟩
  rw [hleft hmode, map_append, map_singleton,
    UInt8.toNat_ofNat_of_lt' (hpushed.small _ (mem_append_right _ mem_cons_self))]
  exact hpushed

theorem read_last (hbits : k + bits mode = 8) (hzero : bits 0 = 0) (left' : ℕ) :
    HasRead k bits (ins ++ [d]) (vchRet ++ [UInt8.ofNat (left * 2 ^ k ||| d)], 0, left') := by
  obtain ⟨_, hread, -⟩ := read_byte bits 0 h hmode hd (by rw [hzero, hbits])
    (by rw [hzero]; exact Nat.zero_le k)
  rw [hzero, pow_zero, Nat.div_one] at hread
  exact ⟨_, by rw [hzero]; exact hread, fun h => absurd rfl h⟩

/-- A digit that does not make a byte yet is kept. -/
theorem read_bits (hbits : k + bits mode = bits m) :
    HasRead k bits (ins ++ [d]) (vchRet, m, left * 2 ^ k ||| d) := by
  obtain ⟨rest, hgroups, hleft⟩ := h
  have hfed := hgroups.feed hd
  rw [hbits, ← or_eq_add _ _ hd, ← hleft hmode] at hfed
  exact ⟨_, hfed, fun _ => rfl⟩

end

theorem read_first (h : HasRead k bits ins (vchRet, 0, left)) (hd : d < 2 ^ k) (hzero : bits 0 = 0)
    (hbits : k + 0 = bits 1) : HasRead k bits (ins ++ [d]) (vchRet, 1, d) := by
  obtain ⟨rest, hgroups, -⟩ := h
  rw [hzero] at hgroups
  have hfed := hgroups.feed hd
  rw [Nat.lt_one_iff.mp hgroups.rest_lt, Nat.zero_mul, Nat.zero_add, hbits] at hfed
  exact ⟨d, hfed, fun _ => rfl⟩

theorem write_one (h : HasWritten k char bits b (strRet, mode, left)) (hmode : mode ≠ 0)
    (hbits : 8 + bits mode = k + bits m) (hle : bits m ≤ 8) (hsame : k - bits mode = 8 - bits m) :
    HasWritten k char bits (b ++ [enc])
      (strRet ++ [char (left ||| enc.toNat / 2 ^ bits m)], m,
        enc.toNat % 2 ^ bits m * 2 ^ (k - bits m)) := by
  obtain ⟨ds, rest, rfl, hgroups, hleft⟩ := h
  have hpushed := push_digit hgroups enc.toNat_lt hbits hle
  rw [← map_singleton, ← map_append, ← hsame, ← hleft hmode] at hpushed
  exact ⟨_, _, by rw [map_append]; rfl, hpushed, fun _ => rfl⟩

theorem write_first (h : HasWritten k char bits b (strRet, 0, left)) (hzero : bits 0 = 0)
    (hbits : 8 = k + bits 1) : HasWritten k char bits (b ++ [enc])
      (strRet ++ [char (enc.toNat / 2 ^ bits 1)], 1,
        enc.toNat % 2 ^ bits 1 * 2 ^ (k - bits 1)) := by
  obtain ⟨ds, rest, rfl, hgroups, -⟩ := h
  rw [hzero] at hgroups
  have hpushed := push_digit hgroups enc.toNat_lt hbits (by omega : bits 1 ≤ _)
  rw [← map_singleton, ← map_append, Nat.lt_one_iff.mp hgroups.rest_lt, Nat.zero_mul,
    Nat.zero_or] at hpushed
  exact ⟨_, _, by rw [map_append]; rfl, hpushed, fun _ => rfl⟩

section

variable (h : HasWritten k char bits b (strRet, mode, left)) (hmode : mode ≠ 0)
include h hmode

theorem write_two (hbits : 8 + bits mode = k + (k + bits m)) (hle : k + bits m ≤ 8)
    (hsame : k - bits mode = 8 - (k + bits m)) : HasWritten k char bits (b ++ [enc])
      (strRet ++ [char (left ||| enc.toNat / 2 ^ (k + bits m)),
        char (enc.toNat / 2 ^ bits m % 2 ^ k)], m, enc.toNat % 2 ^ bits m * 2 ^ (k - bits m)) := by
  obtain ⟨ds, rest, rfl, hgroups, hleft⟩ := h
  have hpushed := (push_digit hgroups enc.toNat_lt hbits hle).emit
  rw [← map_singleton, ← map_append, ← hsame, ← hleft hmode, add_comm k, pow_add,
    Nat.mod_mul_right_div_self, Nat.mod_mod_of_dvd _ (Nat.dvd_mul_right _ _), ← pow_add,
    ← add_comm k, append_assoc] at hpushed
  exact ⟨_, _, by rw [map_append]; rfl, hpushed, fun _ => rfl⟩

theorem write_last (hzero : bits 0 = 0) (hbits : 8 + bits mode = k + k) (hle : k ≤ 8)
    (hsame : k - bits mode = 8 - k) (left' : ℕ) : HasWritten k char bits (b ++ [enc])
      (strRet ++ [char (left ||| enc.toNat / 2 ^ k), char (enc.toNat % 2 ^ k)], 0, left') := by
  have htwo := write_two bits 0 enc h hmode
  simp only [hzero, add_zero, pow_zero, Nat.div_one] at htwo
  obtain ⟨ds, rest, hsplit, hgroups, -⟩ := htwo hbits hle hsame
  exact ⟨ds, rest, hsplit, hgroups, fun h => absurd rfl h⟩

end

end Steps

/-- How many bits `EncodeBase64` has left over. -/
def wbits64 : ℕ → ℕ
  | 0 => 0
  | 1 => 2
  | _ => 4

/-- How many bits `DecodeBase64` has left over. -/
def rbits64 : ℕ → ℕ
  | 0 => 0
  | 1 => 6
  | 2 => 4
  | _ => 2

def wbits32 : ℕ → ℕ
  | 0 => 0
  | 1 => 3
  | 2 => 1
  | 3 => 4
  | _ => 2

def rbits32 : ℕ → ℕ
  | 0 => 0
  | 1 => 5
  | 2 => 2
  | 3 => 7
  | 4 => 4
  | 5 => 1
  | 6 => 6
  | _ => 3

theorem has_written64 {b : valtype} {state : Text × ℕ × ℕ} (enc : UInt8)
    (h : HasWritten 6 base64Char wbits64 b state) :
    HasWritten 6 base64Char wbits64 (b ++ [enc]) (base64Step state enc) :=
  match state with
  | (_, 0, _) => write_first wbits64 enc h rfl rfl
  | (_, 1, _) => write_one wbits64 2 enc h (by decide) rfl (by decide) rfl
  | (_, _ + 2, _) => write_last wbits64 enc h (by omega) rfl rfl (by decide) rfl _

theorem has_read64 {ins : List ℕ} {state : valtype × ℕ × ℕ} {dec : ℕ} (hdec : dec < 2 ^ 6)
    (h : HasRead 6 rbits64 ins state) :
    HasRead 6 rbits64 (ins ++ [dec]) (decode64Step state dec) :=
  match state with
  | (_, 0, _) => read_first rbits64 h hdec rfl rfl
  | (_, 1, _) => read_byte rbits64 2 h (by decide) hdec rfl (by decide)
  | (_, 2, _) => read_byte rbits64 3 h (by decide) hdec rfl (by decide)
  | (_, _ + 3, _) => read_last rbits64 h (by omega) hdec rfl rfl _

theorem has_written32 {b : valtype} {state : Text × ℕ × ℕ} (enc : UInt8)
    (h : HasWritten 5 base32Char wbits32 b state) :
    HasWritten 5 base32Char wbits32 (b ++ [enc]) (base32Step state enc) :=
  match state with
  | (_, 0, _) => write_first wbits32 enc h rfl rfl
  | (_, 1, _) => write_two wbits32 2 enc h (by decide) rfl (by decide) rfl
  | (_, 2, _) => write_one wbits32 3 enc h (by decide) rfl (by decide) rfl
  | (_, 3, _) => write_two wbits32 4 enc h (by decide) rfl (by decide) rfl
  | (_, _ + 4, _) => write_last wbits32 enc h (by omega) rfl rfl (by decide) rfl _

theorem has_read32 {ins : List ℕ} {state : valtype × ℕ × ℕ} {dec : ℕ} (hdec : dec < 2 ^ 5)
    (h : HasRead 5 rbits32 ins state) :
    HasRead 5 rbits32 (ins ++ [dec]) (decode32Step state dec) :=
  match state with
  | (_, 0, _) => read_first rbits32 h hdec rfl rfl
  | (_, 1, _) => read_byte rbits32 2 h (by decide) hdec rfl (by decide)
  | (_, 2, _) => read_bits rbits32 3 h (by decide) hdec rfl
  | (_, 3, _) => read_byte rbits32 4 h (by decide) hdec rfl (by decide)
  | (_, 4, _) => read_byte rbits32 5 h (by decide) hdec rfl (by decide)
  | (_, 5, _) => read_bits rbits32 6 h (by decide) hdec rfl
  | (_, 6, _) => read_byte rbits32 7 h (by decide) hdec rfl (by decide)
  | (_, _ + 7, _) => read_last rbits32 h (by omega) hdec rfl rfl _

set_option maxRecDepth 4000 in
theorem base64_table (c : UInt8) : ∀ d ∈ decode64_table c, d < 2 ^ 6 ∧ base64Char d = c := by
  have hall : ∀ n < 256, ∀ d ∈ decode64_table (UInt8.ofNat n), d < 2 ^ 6 ∧
      base64Char d = UInt8.ofNat n := by decide
  have hc := hall c.toNat c.toNat_lt
  rwa [UInt8.ofNat_toNat] at hc

/-- `tolower` of a character. -/
def lowerChar (c : UInt8) : UInt8 := if 65 ≤ c ∧ c ≤ 90 then c + 32 else c

set_option maxRecDepth 4000 in
theorem base32_table (c : UInt8) :
    ∀ d ∈ decode32_table c, d < 2 ^ 5 ∧ base32Char d = lowerChar c := by
  have hall : ∀ n < 256, ∀ d ∈ decode32_table (UInt8.ofNat n), d < 2 ^ 5 ∧
      base32Char d = lowerChar (UInt8.ofNat n) := by decide
  have hc := hall c.toNat c.toNat_lt
  rwa [UInt8.ofNat_toNat] at hc

set_option maxRecDepth 4000 in
def base64 : BaseCodec where
  k := 6
  char := base64Char
  table := decode64_table
  fold := id
  write := base64Step
  read := decode64Step
  filling mode := if mode = 1 then 2 else 1
  padding := padding64
  wbits := wbits64
  rbits := rbits64
  k_pos := by decide
  k_lt := by decide
  table_char := by decide
  char_table h := base64_table _ _ h
  table_pad := rfl
  table_nul := rfl
  fold_pad := rfl
  wbits_zero := rfl
  rbits_zero := rfl
  wbits_lt m := by unfold wbits64; split <;> decide
  rbits_lt m := by unfold rbits64; split <;> decide
  wbits_pos h := by unfold wbits64; split <;> simp_all
  rbits_pos h := by unfold rbits64; split <;> simp_all
  padding_filling h hbits := by
    revert h hbits
    unfold wbits64 rbits64 padding64
    split <;> split <;> simp_all
  padding_lt h := by
    revert h
    unfold rbits64 padding64
    split <;> simp
  has_written := has_written64
  has_read := has_read64

set_option maxRecDepth 4000 in
def base32 : BaseCodec where
  k := 5
  char := base32Char
  table := decode32_table
  fold := lowerChar
  write := base32Step
  read := decode32Step
  filling := nPadding
  padding := padding32
  wbits := wbits32
  rbits := rbits32
  k_pos := by decide
  k_lt := by decide
  table_char := by decide
  char_table h := base32_table _ _ h
  table_pad := rfl
  table_nul := rfl
  fold_pad := rfl
  wbits_zero := rfl
  rbits_zero := rfl
  wbits_lt m := by unfold wbits32; split <;> decide
  rbits_lt m := by unfold rbits32; split <;> decide
  wbits_pos h := by unfold wbits32; split <;> simp_all
  rbits_pos h := by unfold rbits32; split <;> simp_all
  padding_filling h hbits := by
    revert h hbits
    unfold wbits32 rbits32 padding32
    unfold nPadding
    split <;> split <;> simp_all
  padding_lt h := by
    revert h
    unfold rbits32 padding32
    split <;> simp
  has_written := has_written32
  has_read := has_read32

theorem base64_encode (b : valtype) : base64.encode b = EncodeBase64 b := by
  have hwrite : base64.write = base64Step := rfl
  rw [BaseCodec.encode, EncodeBase64, hwrite]
  generalize b.foldl base64Step ([], 0, 0) = state
  obtain ⟨strRet, mode, left⟩ := state
  by_cases hmode : mode = 1
  · subst hmode
    exact (append_assoc strRet [base64Char left, 61] [61]).symm
  · dsimp only [base64]
    rw [if_neg hmode, if_neg hmode, append_nil]
    rfl

/-- Both decoders give back the bytes that were encoded. They read a text up to its NUL only, and an
encoding of what they accept is how the text starts. -/
theorem baseCodecs_exact :
    (∀ b, DecodeBase64 (EncodeBase64 b) = some (b, false)) ∧
    (∀ b, DecodeBase32 (EncodeBase32 b) = some (b, false)) ∧
    (∀ s, ∃ r fInvalid, DecodeBase64 s = some (r, fInvalid) ∧
      (fInvalid = false → EncodeBase64 r <+: s)) ∧
    (∀ s, ∃ r fInvalid, DecodeBase32 s = some (r, fInvalid) ∧
      (fInvalid = false → EncodeBase32 r <+: s.map lowerChar)) := by
  refine ⟨fun b => ?_, base32.decode_encode, fun s => ?_, base32.decode_spec⟩
  · rw [← base64_encode]
    exact base64.decode_encode b
  · obtain ⟨r, fInvalid, hdecode, hbegins⟩ := base64.decode_spec s
    have hsame : s.map base64.fold = s := map_id s
    rw [base64_encode, hsame] at hbegins
    exact ⟨r, fInvalid, hdecode, hbegins⟩

/-! ## Base 58 -/

section Base58

variable {c : UInt8} {i n : ℕ} {ds : List ℕ} {s v : Text}

theorem base58Char_idxOf (h : pszBase58.idxOf? c = some i) : i < 58 ∧ base58Char i = c := by
  obtain ⟨hi, hget, -⟩ := idxOf?_eq_some_iff.mp h
  refine ⟨hi, ?_⟩
  rw [base58Char, getD_eq_getElem?_getD, getElem?_eq_getElem hi, getD_some, hget]

theorem idxOf_base58Char : ∀ i < 58, pszBase58.idxOf? (base58Char i) = some i := by decide

theorem idxOf_blank (h : isBlank c = true) : pszBase58.idxOf? c = none := by
  cases hi : pszBase58.idxOf? c with
  | none => rfl
  | some i =>
    have hplain := (base58Char_plain i).1
    rw [(base58Char_idxOf hi).2, h] at hplain
    cases hplain

/-- Digits with blanks behind them are read as the number they stand for. -/
theorem decode58Loop_digits (bn : ℕ) (hds : ∀ d ∈ ds, d < 58) (hs : s.all isBlank) :
    decode58Loop bn (ds.map base58Char ++ s) = some (ds.foldl (fun bn d => bn * 58 + d) bn) := by
  induction ds generalizing bn with
  | nil =>
    cases s with
    | nil => rfl
    | cons c p =>
      have hc := all_eq_true.mp hs
      rw [map_nil, nil_append, decode58Loop, idxOf_blank (hc c mem_cons_self)]
      exact if_pos (dropWhile_eq_nil_iff.mpr hc)
  | cons d ds ih =>
    rw [map_cons, cons_append, decode58Loop, idxOf_base58Char d (hds d mem_cons_self)]
    exact ih _ fun d hd => hds d (mem_cons_of_mem _ hd)

/-- Nothing else is read. -/
theorem decode58Loop_eq_some {bn : ℕ} (h : decode58Loop bn s = some n) :
    ∃ (ds : List ℕ) (r : Text), s = ds.map base58Char ++ r ∧ (∀ d ∈ ds, d < 58) ∧
      r.all isBlank := by
  induction s generalizing bn with
  | nil => exact ⟨[], [], rfl, nofun, rfl⟩
  | cons c p ih =>
    rw [decode58Loop] at h
    cases hi : pszBase58.idxOf? c with
    | none =>
      rw [hi] at h
      dsimp only at h
      split at h
      · next hblank =>
        exact ⟨[], c :: p, rfl, nofun, all_eq_true.mpr (dropWhile_eq_nil_iff.mp hblank)⟩
      · cases h
    | some i =>
      rw [hi] at h
      obtain ⟨ds, r, rfl, hds, hr⟩ := ih h
      obtain ⟨hlt, hchar⟩ := base58Char_idxOf hi
      exact ⟨i :: ds, r, by rw [map_cons, hchar, cons_append], forall_mem_cons.mpr ⟨hlt, hds⟩, hr⟩

theorem foldl_eq_ofDigits (ds : List ℕ) :
    ds.foldl (fun bn d => bn * 58 + d) 0 = Nat.ofDigits 58 ds.reverse := by
  induction ds using reverseRecOn with
  | nil => rfl
  | append_singleton ds d ih =>
    rw [foldl_append, foldl_cons, foldl_nil, ih, reverse_concat, Nat.ofDigits_cons]
    ring

theorem length_leadingOnes (hds : ∀ d ∈ ds, d < 58) (hs : s.all isBlank) :
    ((ds.map base58Char ++ s).takeWhile (· = base58Char 0)).length =
      (ds.takeWhile (· = 0)).length := by
  have hone : ∀ d < 58, base58Char d = base58Char 0 → d = 0 := by decide
  induction ds with
  | nil =>
    cases s with
    | nil => rfl
    | cons c p =>
      have hc := all_eq_true.mp hs c mem_cons_self
      have hne : c ≠ base58Char 0 := by
        rintro rfl
        cases hc
      rw [map_nil, nil_append, takeWhile_cons_of_neg (by simpa using hne)]
      rfl
  | cons d ds ih =>
    obtain ⟨hd, hrest⟩ := forall_mem_cons.mp hds
    by_cases hzero : d = 0
    · rw [map_cons, cons_append, takeWhile_cons_of_pos (by simp [hzero]),
        takeWhile_cons_of_pos (by simp [hzero]), length_cons, length_cons, ih hrest]
    · have hne := mt (hone d hd) hzero
      rw [map_cons, cons_append, takeWhile_cons_of_neg (by simpa using hne),
        takeWhile_cons_of_neg (by simpa using hzero)]
      rfl

theorem DecodeBase58_digits {pre : Text} (hpre : pre.all isBlank) (hds : ∀ d ∈ ds, d < 58)
    (hs : s.all isBlank) : DecodeBase58 (pre ++ (ds.map base58Char ++ s)) =
      some ((placeDigits 256 (placeValue 58 ds)).map UInt8.ofNat) := by
  rw [DecodeBase58, dropWhile_append_of_pos (all_eq_true.mp hpre)]
  cases hds' : ds with
  | nil =>
    rw [map_nil, nil_append, dropWhile_eq_nil_iff.mpr (all_eq_true.mp hs)]
    rfl
  | cons d rest =>
    have hblank : ¬ isBlank (base58Char d) = true := by
      rw [(base58Char_plain d).1]
      exact Bool.false_ne_true
    rw [map_cons, cons_append, dropWhile_cons_of_neg hblank, ← cons_append, ← map_cons, ← hds']
    dsimp only
    rw [decode58Loop_digits 0 hds hs, foldl_eq_ofDigits, length_leadingOnes hds hs, placeDigits,
      map_append, map_replicate, map_reverse]
    rfl

theorem ofLittleEndian_eq_ofDigits (v : valtype) :
    ofLittleEndian v = Nat.ofDigits 256 (v.map UInt8.toNat) := by
  induction v with
  | nil => rfl
  | cons b v ih => rw [ofLittleEndian, map_cons, Nat.ofDigits_cons, ih]

theorem EncodeBase58_digits (v : valtype) :
    EncodeBase58 v = (placeDigits 58 (placeValue 256 (v.map UInt8.toNat))).map base58Char := by
  have hzeros : ((v.map UInt8.toNat).takeWhile (· = 0)).length = (v.takeWhile (· = 0)).length := by
    rw [takeWhile_map, length_map]
    congr 2
    funext c
    simp [← UInt8.toNat_inj]
  rw [EncodeBase58, placeDigits, placeValue, hzeros, reverse_append, ← map_reverse, map_append,
    map_replicate, map_const', length_reverse, ofLittleEndian_eq_ofDigits,
    ← map_reverse, ← map_reverse]

theorem EncodeBase58_decoded (hds : ∀ d ∈ ds, d < 58) :
    EncodeBase58 ((placeDigits 256 (placeValue 58 ds)).map UInt8.ofNat) = ds.map base58Char := by
  have hbytes : ((placeDigits 256 (placeValue 58 ds)).map UInt8.ofNat).map UInt8.toNat =
      placeDigits 256 (placeValue 58 ds) := by
    rw [List.map_map]
    refine (List.map_congr_left fun d hd => ?_).trans (List.map_id _)
    exact UInt8.toNat_ofNat_of_lt' (placeDigits_lt (by decide) _ d hd)
  rw [EncodeBase58_digits, hbytes, placeValue_placeDigits, placeDigits_placeValue (by decide) hds]

theorem DecodeBase58_eq_some : DecodeBase58 s = some v ↔ ∃ pre post, pre.all isBlank ∧
    post.all isBlank ∧ s = pre ++ (EncodeBase58 v ++ post) := by
  constructor
  · intro h
    have hsplit := takeWhile_append_dropWhile (p := isBlank) (l := s)
    obtain ⟨n, hloop, -⟩ := bind_eq_some_iff.mp h
    obtain ⟨ds, r, hs, hds, hr⟩ := decode58Loop_eq_some hloop
    have hpre : (s.takeWhile isBlank).all isBlank := all_takeWhile
    rw [hs] at hsplit
    rw [← hsplit, DecodeBase58_digits hpre hds hr] at h
    cases h
    exact ⟨_, r, hpre, hr, by rw [EncodeBase58_decoded hds, hsplit]⟩
  · rintro ⟨pre, post, hpre, hpost, rfl⟩
    have hbytes : ∀ d ∈ v.map UInt8.toNat, d < 256 := by
      intro d hd
      obtain ⟨c, -, rfl⟩ := List.mem_map.mp hd
      exact c.toNat_lt
    rw [EncodeBase58_digits, DecodeBase58_digits hpre (placeDigits_lt (by decide) _) hpost,
      placeValue_placeDigits, placeDigits_placeValue (by decide) hbytes, List.map_map]
    exact congrArg some ((List.map_congr_left fun c _ => UInt8.ofNat_toNat).trans (List.map_id v))

theorem base58_exact (C : KeyCrypto) (s : Text) (v : valtype) :
    (DecodeBase58 s = some v ↔ ∃ pre post, pre.all isBlank ∧ post.all isBlank ∧
      s = pre ++ (EncodeBase58 v ++ post)) ∧
    (DecodeBase58Check C s = some v ↔ ∃ pre post, pre.all isBlank ∧ post.all isBlank ∧
      s = pre ++ (EncodeBase58Check C v ++ post)) := by
  have hlength : ∀ n, (toLittleEndian 4 n).length = 4 := length_toLittleEndian 4
  refine ⟨DecodeBase58_eq_some, Iff.trans ?_ DecodeBase58_eq_some⟩
  unfold DecodeBase58Check
  constructor
  · intro h
    obtain ⟨vchRet, hdecode, h⟩ := bind_eq_some_iff.mp h
    dsimp only at h
    split_ifs at h with hshort hhash
    cases h
    rw [hhash, take_append_drop]
    exact hdecode
  · intro h
    rw [h]
    have hsub : (v ++ toLittleEndian 4 (C.Hash v)).length - 4 = v.length := by
      rw [length_append, hlength, Nat.add_sub_cancel]
    dsimp only [bind_eq_bind, bind_some]
    rw [if_neg (by rw [length_append, hlength]; omega), hsub, take_left, drop_left, if_pos rfl]

end Base58

end Phoenixcoin.Analysis
