import Phoenixcoin.Lib.Codec
import Phoenixcoin.Program.ChainDb
import Phoenixcoin.Program.Script

/-!
# Serialisation

The stream and the templates of `serialize.h`: `CDataStream::read`, compact sizes, integers,
strings, vectors, sets and maps, and the serialisation macros of the classes of `main.h`. One
macro body serves the size, the write and the read of a class, and so does one codec here.
-/

set_option autoImplicit false

namespace Phoenixcoin.Program

open Lib List

def MAX_SIZE : ℕ := 0x02000000

/-! ## The stream -/

/-- `CDataStream`: the buffer and the 32-bit read position, which never passes its end. -/
structure CDataStream where
  vch : List UInt8
  nReadPos : UInt32
  nReadPos_le : nReadPos.toNat ≤ vch.length
deriving DecidableEq

namespace CDataStream

def ofBytes (vch : List UInt8) : CDataStream := ⟨vch, 0, Nat.zero_le _⟩

/-- The bytes that have not been read. -/
def remaining (s : CDataStream) : List UInt8 := s.vch.drop s.nReadPos.toNat

/-- `CDataStream::read`. Past the end of the data it sets no error: it fills up with zeros and
clears the buffer. The callers' sizes are far below `2^31`, so none is negative as an `int`. -/
def read (nSize : ℕ) (s : CDataStream) : List UInt8 × CDataStream :=
  let nAvail := s.vch.length - s.nReadPos.toNat
  if nSize ≤ nAvail then
    let nReadPos := s.nReadPos + UInt32.ofNat nSize
    let pch := (s.vch.drop s.nReadPos.toNat).take nSize
    if h : nReadPos.toNat < s.vch.length then (pch, ⟨s.vch, nReadPos, h.le⟩)
    else (pch, ofBytes [])
  else (s.vch.drop s.nReadPos.toNat ++ List.replicate (nSize - nAvail) 0, ofBytes [])

end CDataStream

/-- `CDataStream >> x`; `none` is the exception of a decoder. -/
def unserialize {α : Type} (c : Codec α) (s : CDataStream) : Option (α × CDataStream) :=
  c.decoder.run CDataStream.read s

namespace CDataStream

@[simp]
theorem remaining_ofBytes (vch : List UInt8) : (ofBytes vch).remaining = vch := rfl

theorem length_remaining (s : CDataStream) :
    s.remaining.length = s.vch.length - s.nReadPos.toNat := length_drop

/-- A read takes the next bytes as long as the read position does not overflow. -/
theorem read_spec {nSize : ℕ} {s : CDataStream}
    (h : s.nReadPos.toNat + nSize < 2 ^ 32 ∨ s.remaining.length < nSize) :
    (s.read nSize).1 = (readBytes nSize s.remaining).1 ∧
      (s.read nSize).2.remaining = (readBytes nSize s.remaining).2 ∧
      (s.read nSize).2.vch.length ≤ s.vch.length := by
  have hlength := s.length_remaining
  by_cases hsize : nSize ≤ s.vch.length - s.nReadPos.toNat
  · have hpos : (s.nReadPos + UInt32.ofNat nSize).toNat = s.nReadPos.toNat + nSize := by
      have hlt : s.nReadPos.toNat + nSize < 2 ^ 32 := by omega
      rw [UInt32.toNat_add, UInt32.toNat_ofNat', Nat.mod_eq_of_lt (by omega : nSize < 2 ^ 32),
        Nat.mod_eq_of_lt hlt]
    have hbytes : (readBytes nSize s.remaining).1 = s.remaining.take nSize := by
      rw [readBytes, Nat.sub_eq_zero_of_le (by omega), replicate_zero, append_nil]
    have hrest : (readBytes nSize s.remaining).2 = s.vch.drop (s.nReadPos.toNat + nSize) := by
      rw [readBytes, remaining, drop_drop]
    by_cases hend : s.nReadPos.toNat + nSize < s.vch.length
    · have hread : s.read nSize = (s.remaining.take nSize,
          ⟨s.vch, s.nReadPos + UInt32.ofNat nSize, by omega⟩) := by
        rw [read]
        simp only [hsize, if_true, hpos, hend, dif_pos]
        rfl
      rw [hread, hbytes, hrest]
      refine ⟨rfl, ?_, le_rfl⟩
      rw [remaining]
      dsimp only
      rw [hpos]
    · have hread : s.read nSize = (s.remaining.take nSize, ofBytes []) := by
        rw [read]
        simp only [hsize, if_true, hpos, hend, dif_neg, not_false_eq_true]
        rfl
      rw [hread, hbytes, hrest]
      refine ⟨rfl, ?_, Nat.zero_le _⟩
      rw [remaining_ofBytes, drop_eq_nil_of_le (by omega)]
  · have hread : s.read nSize =
        (s.remaining ++ List.replicate (nSize - s.remaining.length) 0, ofBytes []) := by
      rw [read]
      simp only [hsize, if_false, hlength]
      rfl
    rw [hread, readBytes, take_of_length_le (by omega), drop_eq_nil_of_le (by omega)]
    exact ⟨rfl, rfl, Nat.zero_le _⟩

end CDataStream

open CDataStream

variable {α : Type} {c : Codec α} {n width : ℕ} {s s' : List UInt8}

/-- A value that decodes from the bytes of a stream decodes from the stream, if the read
position does not overflow on the way. -/
theorem unserialize_of_eval {s : CDataStream} {x : α} {rest : List UInt8}
    (h : c.decoder.eval s.remaining = some (x, rest)) (hpos : s.vch.length - rest.length < 2 ^ 32) :
    ∃ s', unserialize c s = some (x, s') ∧ s'.remaining = rest := by
  let R : CDataStream → List UInt8 → Prop := fun t bytes =>
    t.remaining = bytes ∧ t.vch.length ≤ s.vch.length
  let P : List UInt8 → Prop := fun bytes => s.vch.length - bytes.length < 2 ^ 32
  have hback : ∀ n bytes, P (readBytes n bytes).2 → P bytes := by
    intro n bytes hP
    have hle : (readBytes n bytes).2.length ≤ bytes.length := by simp [readBytes]
    show s.vch.length - bytes.length < 2 ^ 32
    omega
  have hstep : ∀ n t bytes, R t bytes → P (readBytes n bytes).2 →
      (read n t).1 = (readBytes n bytes).1 ∧
        R (read n t).2 (readBytes n bytes).2 := by
    rintro n t _ ⟨rfl, hle⟩ hP
    have hrest : (readBytes n t.remaining).2.length = t.remaining.length - n := by
      simp [readBytes]
    have hlength := t.length_remaining
    have hnReadPos := t.nReadPos_le
    obtain ⟨hbytes, hremaining, hvch⟩ := @read_spec n t (by omega)
    exact ⟨hbytes, hremaining, by omega⟩
  obtain ⟨s', hrun, hR, -⟩ := Decoder.run_of_simulation hback hstep ⟨rfl, le_rfl⟩ h hpos
  exact ⟨s', hrun, hR⟩

/-- What decodes from a stream of less than 4 GiB decodes from its bytes. -/
theorem eval_of_unserialize {s s' : CDataStream} {x : α} (hs : s.vch.length < 2 ^ 32)
    (h : unserialize c s = some (x, s')) :
    c.decoder.eval s.remaining = some (x, s'.remaining) := by
  let R : List UInt8 → CDataStream → Prop := fun bytes t =>
    t.remaining = bytes ∧ t.vch.length ≤ s.vch.length
  have hstep : ∀ n bytes t, R bytes t → True →
      (readBytes n bytes).1 = (read n t).1 ∧
        R (readBytes n bytes).2 (read n t).2 := by
    rintro n _ t ⟨rfl, hle⟩ -
    have hlength := t.length_remaining
    have hnReadPos := t.nReadPos_le
    obtain ⟨hbytes, hremaining, hvch⟩ := @read_spec n t (by omega)
    exact ⟨hbytes.symm, hremaining, by omega⟩
  obtain ⟨rest, hrun, hR, -⟩ := Decoder.run_of_simulation (fun _ _ _ => trivial) hstep
    ⟨rfl, le_rfl⟩ h trivial
  rw [hR]
  exact hrun

/-! ## Compact sizes -/

/-- The last check of `ReadCompactSize`. -/
def checkCompactSize (nSizeRet : ℕ) : Decoder ℕ :=
  if nSizeRet > MAX_SIZE then .fail else .done nSizeRet

/-- One of the long forms of `ReadCompactSize`; a size that a shorter form holds is refused. -/
def readLongSize (width least : ℕ) : Decoder ℕ :=
  .read width fun xSize =>
    if ofLittleEndian xSize < least then .fail else checkCompactSize (ofLittleEndian xSize)

/-- What `ReadCompactSize` does after its first byte. -/
def readSizeForm (chSize : ℕ) : Decoder ℕ :=
  if chSize < 253 then checkCompactSize chSize
  else if chSize = 253 then readLongSize 2 253
  else if chSize = 254 then readLongSize 4 0x10000
  else readLongSize 8 0x100000000

def ReadCompactSize : Decoder ℕ := .read 1 fun bytes => readSizeForm (ofLittleEndian bytes)

def WriteCompactSize (nSize : ℕ) : List UInt8 :=
  if nSize < 253 then toLittleEndian 1 nSize
  else if nSize ≤ 0xFFFF then 253 :: toLittleEndian 2 nSize
  else if nSize ≤ 0xFFFFFFFF then 254 :: toLittleEndian 4 nSize
  else 255 :: toLittleEndian 8 nSize

theorem length_WriteCompactSize (nSize : ℕ) :
    (WriteCompactSize nSize).length = getSizeOfCompactSize nSize := by
  unfold WriteCompactSize getSizeOfCompactSize
  split
  · simp
  · split
    · simp
    · split <;> simp

theorem eval_checkCompactSize (h : n ≤ MAX_SIZE) (s : List UInt8) :
    (checkCompactSize n).eval s = some (n, s) := by
  rw [checkCompactSize, if_neg (by omega), Decoder.eval_done]

theorem eval_checkCompactSize_eq_some {m : ℕ} (h : (checkCompactSize n).eval s = some (m, s')) :
    m = n ∧ s' = s ∧ n ≤ MAX_SIZE := by
  unfold checkCompactSize at h
  split at h
  · simp at h
  · next hle =>
    simp only [Decoder.eval_done, Option.some.injEq, Prod.mk.injEq] at h
    exact ⟨h.1.symm, h.2.symm, by omega⟩

theorem eval_readLongSize {least : ℕ} (hwidth : n < 256 ^ width) (hleast : least ≤ n)
    (hmax : n ≤ MAX_SIZE) (rest : List UInt8) :
    (readLongSize width least).eval (toLittleEndian width n ++ rest) = some (n, rest) := by
  rw [readLongSize, Decoder.eval_read, readBytes_append (length_toLittleEndian _ _),
    ofLittleEndian_toLittleEndian hwidth, if_neg (by omega), eval_checkCompactSize hmax]

theorem eval_readLongSize_eq_some {least : ℕ} (h : (readLongSize width least).eval s = some (n, s'))
    :
    least ≤ n ∧ n < 256 ^ width ∧ n ≤ MAX_SIZE ∧ Consumes (toLittleEndian width n) s s' := by
  rw [readLongSize, Decoder.eval_read] at h
  split at h
  · simp at h
  · next hleast =>
    obtain ⟨rfl, rfl, hmax⟩ := eval_checkCompactSize_eq_some h
    have hlt := ofLittleEndian_lt (readBytes width s).1
    rw [length_readBytes] at hlt
    rw [toLittleEndian_of_length (length_readBytes width s)]
    exact ⟨by omega, hlt, hmax, consumes_readBytes width s⟩

theorem toLittleEndian_one (h : n < 256) : toLittleEndian 1 n = [UInt8.ofNat n] := by
  simp [toLittleEndian, Nat.mod_eq_of_lt h]

theorem eval_ReadCompactSize_cons (b : UInt8) (s : List UInt8) :
    ReadCompactSize.eval (b :: s) = (readSizeForm b.toNat).eval s := by
  have hread : readBytes 1 (b :: s) = ([b], s) := @readBytes_append 1 [b] rfl s
  rw [ReadCompactSize, Decoder.eval_read, hread]
  simp [ofLittleEndian]

theorem eval_ReadCompactSize (h : n ≤ MAX_SIZE) (rest : List UInt8) :
    ReadCompactSize.eval (WriteCompactSize n ++ rest) = some (n, rest) := by
  have hmax : n < 0x100000000 := lt_of_le_of_lt h (by decide)
  unfold WriteCompactSize
  by_cases h1 : n < 253
  · have hbyte : (UInt8.ofNat n).toNat = n := by
      rw [UInt8.toNat_ofNat_of_lt' (by simp [UInt8.size]; omega)]
    rw [if_pos h1, toLittleEndian_one (by omega), singleton_append,
      eval_ReadCompactSize_cons, hbyte, readSizeForm, if_pos h1, eval_checkCompactSize h]
  · rw [if_neg h1]
    by_cases h2 : n ≤ 0xFFFF
    · rw [if_pos h2, cons_append, eval_ReadCompactSize_cons]
      exact eval_readLongSize (by omega) (by omega) h rest
    · rw [if_neg h2, if_pos (by omega), cons_append, eval_ReadCompactSize_cons]
      exact eval_readLongSize (by omega) (by omega) h rest

theorem ReadCompactSize_eq_some (h : ReadCompactSize.eval s = some (n, s')) :
    n ≤ MAX_SIZE ∧ Consumes (WriteCompactSize n) s s' := by
  have hhead := consumes_readBytes 1 s
  have hlt := ofLittleEndian_lt (readBytes 1 s).1
  rw [length_readBytes] at hlt
  have hbyte := toLittleEndian_of_length (length_readBytes 1 s)
  rw [toLittleEndian_one (by omega)] at hbyte
  rw [← hbyte] at hhead
  rw [ReadCompactSize, Decoder.eval_read] at h
  generalize ofLittleEndian (readBytes 1 s).1 = chSize at h hlt hhead
  unfold readSizeForm at h
  split at h
  · next h1 =>
    obtain ⟨rfl, rfl, hle⟩ := eval_checkCompactSize_eq_some h
    rw [WriteCompactSize, if_pos h1, toLittleEndian_one hlt]
    exact ⟨hle, hhead⟩
  · split at h
    · next h2 =>
      obtain ⟨hleast, hwidth, hle, hrest⟩ := eval_readLongSize_eq_some h
      rw [WriteCompactSize, if_neg (by omega), if_pos (by omega)]
      subst h2
      exact ⟨hle, hhead.append hrest⟩
    · split at h
      · next h2 h3 =>
        obtain ⟨hleast, hwidth, hle, hrest⟩ := eval_readLongSize_eq_some h
        rw [WriteCompactSize, if_neg (by omega), if_neg (by omega), if_pos (by omega)]
        subst h3
        exact ⟨hle, hhead.append hrest⟩
      · obtain ⟨hleast, hwidth, hle, hrest⟩ := eval_readLongSize_eq_some h
        have hmax : MAX_SIZE < 0x100000000 := by decide
        omega

def compactSize : Codec ℕ where
  Encodes enc n := n ≤ MAX_SIZE ∧ enc = WriteCompactSize n
  Fits n := n ≤ MAX_SIZE
  elements _ := 0
  size n := UInt32.ofNat (getSizeOfCompactSize n)
  write := WriteCompactSize
  decoder := ReadCompactSize
  size_eq n := by rw [length_WriteCompactSize]
  encodes_write n h := ⟨h, rfl⟩
  eval_append := by
    rintro _ n rest ⟨h, rfl⟩
    exact eval_ReadCompactSize h rest
  consumes_of_eval s n s' h := by
    obtain ⟨hle, hs⟩ := ReadCompactSize_eq_some h
    exact ⟨_, ⟨hle, rfl⟩, hs⟩
  elements_lt := by
    rintro _ n ⟨_, rfl⟩
    rw [length_WriteCompactSize]
    unfold getSizeOfCompactSize
    split_ifs <;> omega

theorem compactSize_canonical : compactSize.Canonical := fun _ _ h => h.2

/-! ## Integers -/

/-- An unsigned integer of `width` bytes. -/
def uintCodec (width : ℕ) (hwidth : 0 < width) : Codec ℕ :=
  .fixed width hwidth (toLittleEndian width) ofLittleEndian (· < 256 ^ width)
    (length_toLittleEndian width) fun _ => ofLittleEndian_toLittleEndian

theorem uintCodec_canonical (hwidth : 0 < width) : (uintCodec width hwidth).Canonical :=
  Codec.fixed_canonical fun _ => toLittleEndian_of_length

/-- The two's complement of a signed integer of `width` bytes. -/
def toTwosComplement (width : ℕ) (n : ℤ) : List UInt8 :=
  toLittleEndian width (n % 256 ^ width).toNat

def ofTwosComplement (width : ℕ) (bytes : List UInt8) : ℤ :=
  let n := ofLittleEndian bytes
  if 2 * n < 256 ^ width then n else (n : ℤ) - 256 ^ width

theorem ofTwosComplement_toTwosComplement {n : ℤ} (h : -256 ^ width ≤ 2 * n ∧ 2 * n < 256 ^ width) :
    ofTwosComplement width (toTwosComplement width n) = n := by
  have hpos : (0 : ℤ) < 256 ^ width := by positivity
  have hnonneg := Int.emod_nonneg n hpos.ne'
  have hlt := Int.emod_lt_of_pos n hpos
  have hval : ofLittleEndian (toLittleEndian width (n % 256 ^ width).toNat) =
      (n % 256 ^ width).toNat := by
    apply ofLittleEndian_toLittleEndian
    zify
    rwa [Int.toNat_of_nonneg hnonneg]
  have hcast : (((n % 256 ^ width).toNat : ℕ) : ℤ) = n % 256 ^ width :=
    Int.toNat_of_nonneg hnonneg
  rw [ofTwosComplement, toTwosComplement, hval]
  by_cases hsign : 0 ≤ n
  · have hmod : n % 256 ^ width = n := Int.emod_eq_of_lt hsign (by omega)
    rw [hmod] at hcast ⊢
    rw [if_pos (by zify; omega), hcast]
  · have hmod : n % 256 ^ width = n + 256 ^ width := by
      rw [← Int.add_emod_right, Int.emod_eq_of_lt (by omega) (by omega)]
    rw [if_neg (by zify; omega)]
    omega

theorem toTwosComplement_ofTwosComplement {bytes : List UInt8} (h : bytes.length = width) :
    toTwosComplement width (ofTwosComplement width bytes) = bytes := by
  have hlt : ofLittleEndian bytes < 256 ^ width := h ▸ ofLittleEndian_lt bytes
  have hmod : ofTwosComplement width bytes % 256 ^ width = ofLittleEndian bytes := by
    unfold ofTwosComplement
    dsimp only
    split
    · exact Int.emod_eq_of_lt (by omega) (by exact_mod_cast hlt)
    · rw [Int.sub_emod_right]
      exact Int.emod_eq_of_lt (by omega) (by exact_mod_cast hlt)
  rw [toTwosComplement, hmod]
  exact toLittleEndian_of_length h

/-- A signed integer of `width` bytes. -/
def intCodec (width : ℕ) (hwidth : 0 < width) : Codec ℤ :=
  .fixed width hwidth (toTwosComplement width) (ofTwosComplement width)
    (fun n => -256 ^ width ≤ 2 * n ∧ 2 * n < 256 ^ width)
    (fun _ => length_toLittleEndian _ _) fun _ => ofTwosComplement_toTwosComplement

theorem intCodec_canonical (hwidth : 0 < width) : (intCodec width hwidth).Canonical :=
  Codec.fixed_canonical fun _ => toTwosComplement_ofTwosComplement

def ucharCodec : Codec ℕ := uintCodec 1 (by decide)

def uintCodec32 : Codec ℕ := uintCodec 4 (by decide)

def uint160Codec : Codec uint160 := uintCodec 20 (by decide)

def uint256Codec : Codec uint256 := uintCodec 32 (by decide)

def intCodec32 : Codec ℤ := intCodec 4 (by decide)

def int64Codec : Codec ℤ := intCodec 8 (by decide)

/-! ## Strings and vectors -/

/-- `std::string`; its bytes are read at once. -/
def stringCodec : Codec (List UInt8) := .bytes compactSize (2 ^ 32) (by decide)

/-- `std::vector<unsigned char>`, also `CScript`; read in blocks of `1 + 4999999 / sizeof(T)`. -/
def ucharVector : Codec (List UInt8) := .bytes compactSize (1 + 4999999) (by decide)

/-- `std::vector<T>` for a class `T` of `sizeofT` bytes. -/
def vectorCodec {α : Type} (sizeofT : ℕ) (h : 0 < 5000000 / sizeofT) (c : Codec α) :
    Codec (List α) :=
  .vector compactSize (5000000 / sizeofT) h c

theorem ucharVector_canonical : ucharVector.Canonical := compactSize_canonical.bytes _ _

theorem vectorCodec_canonical {sizeofT : ℕ} {h : 0 < 5000000 / sizeofT} (hc : c.Canonical) :
    (vectorCodec sizeofT h c).Canonical :=
  compactSize_canonical.vector hc _ h

/-! ## The classes of main.h -/

/-- `READWRITE(FLATDATA(*this))` on the 36 bytes of an outpoint. -/
def COutPoint.codec : Codec COutPoint :=
  .fixed 36 (by decide) (fun o => toLittleEndian 32 o.hash ++ toLittleEndian 4 o.n)
    (fun bytes => ⟨ofLittleEndian (bytes.take 32), ofLittleEndian (bytes.drop 32)⟩)
    (fun o => o.hash < 256 ^ 32 ∧ o.n < 256 ^ 4)
    (fun o => by simp)
    (fun o h => by
      rw [take_left' (length_toLittleEndian _ _), drop_left' (length_toLittleEndian _ _),
        ofLittleEndian_toLittleEndian h.1, ofLittleEndian_toLittleEndian h.2])

theorem COutPoint.codec_canonical : COutPoint.codec.Canonical := by
  apply Codec.fixed_canonical
  intro enc henc
  rw [toLittleEndian_of_length (by simp [henc]), toLittleEndian_of_length (by simp [henc]),
    take_append_drop]

def CTxIn.codec : Codec CTxIn :=
  (COutPoint.codec.pair (ucharVector.pair uintCodec32)).embed
    (fun ⟨prevout, scriptSig, nSequence⟩ => ⟨prevout, scriptSig, nSequence⟩)
    (fun txin => (txin.prevout, txin.scriptSig, txin.nSequence)) fun _ => rfl

def CTxOut.codec : Codec CTxOut :=
  (int64Codec.pair ucharVector).embed (fun ⟨nValue, scriptPubKey⟩ => ⟨nValue, scriptPubKey⟩)
    (fun txout => (txout.nValue, txout.scriptPubKey)) fun _ => rfl

def CTransaction.codec : Codec CTransaction :=
  (intCodec32.pair ((vectorCodec 72 (by decide) CTxIn.codec).pair
    ((vectorCodec 32 (by decide) CTxOut.codec).pair uintCodec32))).embed
    (fun ⟨nVersion, vin, vout, nLockTime⟩ => ⟨nVersion, vin, vout, nLockTime⟩)
    (fun tx => (tx.nVersion, tx.vin, tx.vout, tx.nLockTime)) fun _ => rfl

def CBlockHeader.codec : Codec CBlockHeader :=
  (intCodec32.pair (uint256Codec.pair (uint256Codec.pair (uintCodec32.pair
    (uintCodec32.pair uintCodec32))))).embed
    (fun ⟨nVersion, hashPrevBlock, hashMerkleRoot, nTime, nBits, nNonce⟩ =>
      ⟨nVersion, hashPrevBlock, hashMerkleRoot, nTime, nBits, nNonce⟩)
    (fun header => (header.nVersion, header.hashPrevBlock, header.hashMerkleRoot, header.nTime,
      header.nBits, header.nNonce)) fun _ => rfl

/-- A block with its transactions, as the network and the block files hold it. -/
def CBlock.codec : Codec CBlock :=
  (CBlockHeader.codec.pair (vectorCodec 64 (by decide) CTransaction.codec)).embed
    (fun ⟨header, vtx⟩ => ⟨header, vtx⟩) (fun block => (block.toCBlockHeader, block.vtx))
    fun _ => rfl

/-- `READWRITE(FLATDATA(*this))` on the 12 bytes of a transaction position. -/
def CDiskTxPos.codec : Codec CDiskTxPos :=
  .fixed 12 (by decide)
    (fun pos => toLittleEndian 4 pos.nFile ++ (toLittleEndian 4 pos.nBlockPos ++
      toLittleEndian 4 pos.nTxPos))
    (fun bytes => ⟨ofLittleEndian (bytes.take 4), ofLittleEndian ((bytes.drop 4).take 4),
      ofLittleEndian ((bytes.drop 4).drop 4)⟩)
    (fun pos => pos.nFile < 256 ^ 4 ∧ pos.nBlockPos < 256 ^ 4 ∧ pos.nTxPos < 256 ^ 4)
    (fun pos => by simp)
    (fun pos h => by
      rw [take_left' (length_toLittleEndian _ _), drop_left' (length_toLittleEndian _ _),
        take_left' (length_toLittleEndian _ _), drop_left' (length_toLittleEndian _ _),
        ofLittleEndian_toLittleEndian h.1, ofLittleEndian_toLittleEndian h.2.1,
        ofLittleEndian_toLittleEndian h.2.2])

/-- The version that a stream is opened with, such as `CLIENT_VERSION` or `PROTOCOL_VERSION`. -/
def StreamVersion : Type := {nVersion : ℤ // intCodec32.Fits nVersion}

def CLIENT_VERSION : StreamVersion :=
  ⟨1000000 * 0 + 10000 * 8 + 100 * 4 + 0, by
    show -256 ^ 4 ≤ 2 * _ ∧ 2 * _ < (256 : ℤ) ^ 4
    norm_num⟩

variable (nVersion : StreamVersion)

/-- `READWRITE(nVersion)` in front of a record: the version of the stream is written, and on
reading it is dropped. -/
def versioned {α : Type} (c : Codec α) : Codec α :=
  .header intCodec32 nVersion.1 nVersion.2 c

def CTxIndex.codec : Codec CTxIndex :=
  (versioned nVersion (CDiskTxPos.codec.pair (vectorCodec 12 (by decide) CDiskTxPos.codec))).embed
    (fun ⟨pos, vSpent⟩ => ⟨pos, vSpent⟩) (fun txindex => (txindex.pos, txindex.vSpent)) fun _ => rfl

/-- The fields that `CDiskBlockIndex` stores; the height is an `int`. -/
structure CDiskBlockIndexFields where
  hashNext : uint256
  nFile : ℕ
  nBlockPos : ℕ
  nHeight : ℤ
  header : CBlockHeader
deriving DecidableEq, Repr

def CDiskBlockIndex.fields (diskindex : CDiskBlockIndex) : CDiskBlockIndexFields where
  hashNext := diskindex.hashNext
  nFile := diskindex.nFile
  nBlockPos := diskindex.nBlockPos
  nHeight := diskindex.nHeight
  header := diskindex.header

def CDiskBlockIndex.codec : Codec CDiskBlockIndexFields :=
  (versioned nVersion (uint256Codec.pair (uintCodec32.pair (uintCodec32.pair
    (intCodec32.pair CBlockHeader.codec))))).embed
    (fun ⟨hashNext, nFile, nBlockPos, nHeight, header⟩ =>
      ⟨hashNext, nFile, nBlockPos, nHeight, header⟩)
    (fun diskindex => (diskindex.hashNext, diskindex.nFile, diskindex.nBlockPos,
      diskindex.nHeight, diskindex.header)) fun _ => rfl

/-- The hashes of a block locator. -/
structure CBlockLocator where
  vHave : List uint256
deriving DecidableEq, Repr

def CBlockLocator.codec : Codec CBlockLocator :=
  (versioned nVersion (vectorCodec 32 (by decide) uint256Codec)).embed (fun vHave => ⟨vHave⟩)
    CBlockLocator.vHave fun _ => rfl

end Phoenixcoin.Program
