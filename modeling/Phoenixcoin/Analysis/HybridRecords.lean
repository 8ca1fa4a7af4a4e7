import Phoenixcoin.Program.HybridRecords

/-!
# Layouts of hybrid key records

A record of version 2 or 3 is read back, but so is its first byte alone: the reader of the newest
layout completes a value that ends too soon with zeros. The reader of the oldest layout takes its
own records and no part of one. They get to it exactly if the low byte of the version that the old
writer stamped is neither 2 nor 3.
-/

set_option autoImplicit false

namespace Phoenixcoin.Analysis

open Lib Program CHybridKeyDiskRecord List Option

/-! ## The oldest layout -/

/-- The fields of the oldest layout for records that stamp at least version 2. -/
abbrev LegacyFields : Type :=
  ℤ × ℤ × valtype × valtype × List UInt8 × valtype × uint256

def legacyCodec : Codec LegacyFields :=
  intCodec32.pair (intCodec32.pair (ucharVector.pair (ucharVector.pair
    (stringCodec.pair (ucharVector.pair uint256Codec)))))

def legacyDisk : LegacyFields → CHybridKeyDiskRecord
  | (_, nCreateTime, secpPriv, secpPub, mldsaAlg, mldsaPrivKey, hashChecksum) =>
    { nVersion := HYBRIDKEY_DISK_VERSION
      nCreateTime
      keys := { secpPriv, secpPub, mldsaAlg, mldsaPrivKey }
      hashChecksum }

variable {least : ℕ} {rest s s' enc : List UInt8} {α : Type} {c : Codec α} {x : α}
  {fields : LegacyFields}

theorem readGuarded_write (h : c.Fits x) (hleast : least ≤ (c.write x).length + rest.length) :
    readGuarded least c (c.write x ++ rest) = some (x, rest) := by
  rw [readGuarded, if_neg (by rw [length_append]; omega), c.eval_write_append h]

theorem FromLegacyDiskFormat_write (h : legacyCodec.Fits fields) (hversion : 2 ≤ fields.1) :
    FromLegacyDiskFormat (legacyCodec.write fields) = some (legacyDisk fields) := by
  obtain ⟨nStreamVersion, nCreateTime, secpPriv, secpPub, mldsaAlg, mldsaPrivKey, hash⟩ := fields
  obtain ⟨hstream, htime, hpriv, hpub, halg, hmldsa, hhash⟩ := h
  have hwrite : legacyCodec.write (nStreamVersion, nCreateTime, secpPriv, secpPub, mldsaAlg,
      mldsaPrivKey, hash) = intCodec32.write nStreamVersion ++ (intCodec32.write nCreateTime ++
        (ucharVector.write secpPriv ++ (ucharVector.write secpPub ++ (stringCodec.write mldsaAlg ++
          (ucharVector.write mldsaPrivKey ++ (uint256Codec.write hash ++ [])))))) := by
    rfl
  have hint : ∀ n, (intCodec32.write n).length = 4 := fun n => length_toLittleEndian 4 _
  have hlast : (uint256Codec.write hash).length = 32 := length_toLittleEndian 32 _
  rw [hwrite, FromLegacyDiskFormat]
  simp only [bind_eq_bind]
  rw [readGuarded_write hstream (by rw [hint]; omega), bind_some,
    readGuarded_write htime (by rw [hint]; omega), bind_some,
    readGuarded_write hpriv (by simp only [length_append, hlast]; omega), bind_some,
    readGuarded_write hpub (by simp only [length_append, hlast]; omega), bind_some]
  rw [if_pos hversion,
    readGuarded_write halg (by simp only [length_append, hlast]; omega), bind_some,
    readGuarded_write hmldsa (by simp only [length_append, hlast]; omega), bind_some,
    bind_some, readGuarded_write hhash (by rw [hlast]; omega), bind_some]
  rfl

theorem readGuarded_consumes (h : readGuarded least c s = some (x, s')) :
    least ≤ s.length ∧ ∃ enc, c.Encodes enc x ∧ Consumes enc s s' := by
  unfold readGuarded at h
  split_ifs at h with hshort
  exact ⟨by omega, c.consumes_of_eval _ _ _ h⟩

theorem eq_of_consumes_of_length (h : Consumes enc s s') (hlength : enc.length ≤ s.length) :
    s = enc ++ s' := by
  rcases h with h | ⟨rfl, k, rfl⟩
  · exact h
  · simp at hlength

theorem eq_of_consumes_of_ne_nil (h : Consumes enc s s') (hne : s' ≠ []) : s = enc ++ s' := by
  rcases h with h | ⟨hnil, -⟩
  · exact h
  · exact absurd hnil hne

/-- The guards keep the reader from taking a record that ends too soon. -/
theorem FromLegacyDiskFormat_prefix (h : legacyCodec.Fits fields) (hversion : 2 ≤ fields.1)
    {value : List UInt8} (hne : rest ≠ []) (hvalue : legacyCodec.write fields = value ++ rest) :
    FromLegacyDiskFormat value = none := by
  rw [eq_none_iff_forall_ne_some]
  intro disk hread
  simp only [FromLegacyDiskFormat, bind_eq_bind, bind_eq_some_iff] at hread
  obtain ⟨⟨nStreamVersion, s₁⟩, hstream, ⟨nCreateTime, s₂⟩, htime, ⟨secpPriv, s₃⟩, hpriv,
    ⟨secpPub, s₄⟩, hpub, hread⟩ := hread
  obtain ⟨hleast, enc₁, henc₁, hs₁⟩ := readGuarded_consumes hstream
  have hfirst := eq_of_consumes_of_length hs₁ (by rw [henc₁.1]; exact hleast)
  have hwhole : legacyCodec.decoder.eval (value ++ rest) = some (fields, []) := by
    have heval := legacyCodec.eval_write_append h []
    rwa [append_nil, hvalue] at heval
  have hsame : nStreamVersion = fields.1 := by
    obtain ⟨version, s, hstamp, htail⟩ := Decoder.eval_bind_eq_some.mp hwhole
    obtain ⟨_, -, heq⟩ := Decoder.eval_map_eq_some.mp htail
    rw [hfirst, append_assoc, intCodec32.eval_append _ _ _ henc₁] at hstamp
    cases hstamp
    rw [← heq]
  rw [if_pos (by omega : nStreamVersion ≥ 2)] at hread
  simp only [bind_eq_some_iff] at hread
  obtain ⟨⟨mldsaAlg, s₅⟩, halg, ⟨mldsaPrivKey, s₆⟩, hmldsa, _, heq, ⟨hash, s₇⟩, hhash, hend⟩ :=
    hread
  cases heq
  obtain rfl : s₇ = [] := by
    by_contra hnot
    simp [hnot] at hend
  obtain ⟨-, enc₂, henc₂, hs₂⟩ := readGuarded_consumes htime
  obtain ⟨-, enc₃, henc₃, hs₃⟩ := readGuarded_consumes hpriv
  obtain ⟨-, enc₄, henc₄, hs₄⟩ := readGuarded_consumes hpub
  obtain ⟨-, enc₅, henc₅, hs₅⟩ := readGuarded_consumes halg
  obtain ⟨-, enc₆, henc₆, hs₆⟩ := readGuarded_consumes hmldsa
  obtain ⟨hlast, enc₇, henc₇, hs₇⟩ := readGuarded_consumes hhash
  -- the last guard leaves bytes for the checksum, so none of the reads before it met the end
  have hmore : s₆ ≠ [] := by
    rintro rfl
    simp at hlast
  have hfront := eq_of_consumes_of_ne_nil
    (hs₁.append (hs₂.append (hs₃.append (hs₄.append (hs₅.append hs₆))))) hmore
  have hchecksum : s₆ = enc₇ ++ [] :=
    eq_of_consumes_of_length hs₇ (by rw [henc₇.1]; exact hlast)
  have hencodes : legacyCodec.Encodes value (nStreamVersion, nCreateTime, secpPriv, secpPub,
      mldsaAlg, mldsaPrivKey, hash) := by
    rw [hfront, hchecksum]
    exact ⟨enc₁, enc₂ ++ (enc₃ ++ (enc₄ ++ (enc₅ ++ (enc₆ ++ enc₇)))), by simp, henc₁, enc₂,
      enc₃ ++ (enc₄ ++ (enc₅ ++ (enc₆ ++ enc₇))), by simp, henc₂, enc₃,
      enc₄ ++ (enc₅ ++ (enc₆ ++ enc₇)), by simp, henc₃, enc₄, enc₅ ++ (enc₆ ++ enc₇), by simp,
      henc₄, enc₅, enc₆ ++ enc₇, by simp, henc₅, enc₆, enc₇, by simp, henc₆, henc₇⟩
  rw [legacyCodec.eval_append _ _ rest hencodes, Option.some.injEq, Prod.mk.injEq] at hwhole
  exact hne hwhole.2

/-! ## The newest layout -/

theorem nVersion_of_eval {value : List UInt8} {disk : CHybridKeyDiskRecord}
    (h : codec.decoder.eval value = some (disk, rest)) :
    disk.nVersion = (value.headD 0).toNat := by
  obtain ⟨fields, hfields, rfl⟩ := Decoder.eval_map_eq_some.mp h
  obtain ⟨nVersion, s, hversion, htail⟩ := Decoder.eval_bind_eq_some.mp hfields
  obtain ⟨_, -, rfl⟩ := Decoder.eval_map_eq_some.mp htail
  have hbyte : nVersion = ofLittleEndian (readBytes 1 value).1 := by
    cases hversion
    rfl
  rw [hbyte]
  cases value <;> simp [readBytes, ofLittleEndian]

theorem ofValue_singleton {b : UInt8} (hb : b = 2 ∨ b = 3) : (ofValue [b]).isSome = true := by
  rcases hb with rfl | rfl <;> decide

/-- A value that does not begin with a version of the newest layout is read in the oldest one. -/
theorem ofValue_eq_fromLegacy {value : List UInt8} (h : value.headD 0 ≠ 2 ∧ value.headD 0 ≠ 3) :
    ofValue value = (FromLegacyDiskFormat value).map fun disk => (disk, true) := by
  unfold ofValue
  split
  · next disk rest heval =>
    have hversion := nVersion_of_eval heval
    rw [if_neg]
    rw [hversion]
    rintro (heq | heq)
    · exact h.1 (UInt8.toNat_inj.mp heq)
    · exact h.2 (UInt8.toNat_inj.mp heq)
  · rfl

/-! ## What is read back -/

def hybKey (hybridID : uint160) : List UInt8 :=
  stringCodec.write "hyb".toUTF8.toList ++ uint160Codec.write hybridID

theorem LoadAllHybridKeys_singleton {hybridID : uint160} (hID : hybridID < 2 ^ 160)
    (value : List UInt8) : LoadAllHybridKeys [(hybKey hybridID, value)] =
      some ((ofValue value).map fun disk => (hybridID, disk)).toList := by
  have hfits : uint160Codec.Fits hybridID := by
    show hybridID < 256 ^ 20
    omega
  have htype : stringCodec.Fits "hyb".toUTF8.toList := by
    show "hyb".toUTF8.toList.length ≤ MAX_SIZE
    with_unfolding_all decide
  have hID := uint160Codec.eval_write_append hfits []
  rw [append_nil] at hID
  unfold LoadAllHybridKeys hybKey
  generalize "hyb".toUTF8.toList = strType at htype
  simp [stringCodec.eval_write_append htype, hID]

/-- A record as some version of the node wrote it. -/
inductive StoredHybridKey where
  | current (disk : CHybridKeyDiskRecord)
  | legacy (fields : LegacyFields)

namespace StoredHybridKey

/-- The records that there can be. -/
def Valid : StoredHybridKey → Prop
  | current disk => codec.Fits disk ∧
    (disk.nVersion = HYBRIDKEY_DISK_VERSION ∨ disk.nVersion = HYBRIDKEY_DISK_VERSION_ENCRYPTED)
  | legacy fields => legacyCodec.Fits fields ∧ 2 ≤ fields.1

def value : StoredHybridKey → List UInt8
  | current disk => codec.write disk
  | legacy fields => legacyCodec.write fields

/-- What is to be loaded, with `fLegacyDisk`. -/
def loaded : StoredHybridKey → CHybridKeyDiskRecord × Bool
  | current disk => (disk, false)
  | legacy fields => (legacyDisk fields, true)

/-- The record comes back, and no beginning of it is taken for a record. -/
def DecodesExactly (record : StoredHybridKey) : Prop :=
  ∀ hybridID < 2 ^ 160, LoadAllHybridKeys [(hybKey hybridID, record.value)] =
      some [(hybridID, record.loaded)] ∧
    ∀ value rest, rest ≠ [] → record.value = value ++ rest →
      LoadAllHybridKeys [(hybKey hybridID, value)] = some []

def stamped : StoredHybridKey → ℤ
  | current disk => disk.nVersion
  | legacy fields => fields.1

theorem value_eq_cons (record : StoredHybridKey) : ∃ b rest, record.value = b :: rest ∧ rest ≠ [] ∧
    (b.toNat : ℤ) = record.stamped % 256 := by
  cases record with
  | current disk =>
    refine ⟨UInt8.ofNat (disk.nVersion % 256), intCodec32.write disk.nCreateTime ++
      ((HybridKeyFields.codec disk.nVersion).write disk.keys ++
        uint256Codec.write disk.hashChecksum), rfl, ?_, ?_⟩
    · intro hnil
      have hlength := congrArg List.length hnil
      have htime : (intCodec32.write disk.nCreateTime).length = 4 := length_toLittleEndian 4 _
      rw [length_append, length_nil] at hlength
      omega
    · rw [UInt8.toNat_ofNat', stamped]
      omega
  | legacy fields =>
    have hwrite : (legacy fields).value = UInt8.ofNat ((fields.1 % 256 ^ 4).toNat % 256) ::
          (toLittleEndian 3 ((fields.1 % 256 ^ 4).toNat / 256) ++
            (legacyCodec.write fields).drop 4) := rfl
    refine ⟨_, _, hwrite, ?_, ?_⟩
    · intro hnil
      have hlength := congrArg List.length hnil
      rw [length_append, length_toLittleEndian, length_nil] at hlength
      omega
    · rw [UInt8.toNat_ofNat', stamped]
      omega

/-- The first byte is taken for a record. -/
theorem not_decodesExactly {record : StoredHybridKey} {b : UInt8} {rest : List UInt8}
    (hvalue : record.value = b :: rest) (hrest : rest ≠ []) (hb : b = 2 ∨ b = 3) :
    ¬ record.DecodesExactly := by
  intro hexact
  have hnone := (hexact 0 (by decide)).2 [b] rest hrest hvalue
  obtain ⟨disk, hdisk⟩ := isSome_iff_exists.mp (ofValue_singleton hb)
  rw [LoadAllHybridKeys_singleton (by decide), hdisk] at hnone
  simp at hnone

/-- A record of version 2 or 3 is read back, but so is its first byte. A record of the oldest
layout is read back, with no beginning taken for a record, exactly if the low byte of its version is
neither 2 nor 3. -/
theorem decodesExactly_iff {record : StoredHybridKey} (h : record.Valid) :
    (∀ disk, record = current disk → ∀ hybridID < 2 ^ 160,
      LoadAllHybridKeys [(hybKey hybridID, record.value)] = some [(hybridID, disk, false)]) ∧
    (record.DecodesExactly ↔
      ∃ fields, record = legacy fields ∧ fields.1 % 256 ≠ 2 ∧ fields.1 % 256 ≠ 3) := by
  obtain ⟨b, rest, hvalue, hrest, hb⟩ := record.value_eq_cons
  have hsingle := not_decodesExactly hvalue hrest
  cases record with
  | current disk =>
    obtain ⟨hfits, hversion⟩ := h
    have hload : ofValue (current disk).value = some (disk, false) := by
      have heval := codec.eval_write_append hfits []
      rw [append_nil] at heval
      unfold ofValue value
      simp [heval, if_pos hversion]
    have hbyte : b = 2 ∨ b = 3 := by
      rw [← UInt8.toNat_inj, ← UInt8.toNat_inj]
      have hdisk : disk.nVersion = 2 ∨ disk.nVersion = 3 := hversion
      simp only [UInt8.reduceToNat, stamped] at hb ⊢
      omega
    refine ⟨?_, fun hexact => absurd hexact (hsingle hbyte), ?_⟩
    · rintro _ ⟨⟩ hybridID hID
      rw [LoadAllHybridKeys_singleton hID, hload]
      rfl
    · rintro ⟨_, heq, -⟩
      cases heq
  | legacy fields =>
    obtain ⟨hfits, hversion⟩ := h
    refine ⟨fun _ heq => (by cases heq), ?_, ?_⟩
    · intro hexact
      refine ⟨fields, rfl, ?_⟩
      by_contra hlow
      refine hsingle ?_ hexact
      rw [← UInt8.toNat_inj, ← UInt8.toNat_inj]
      simp only [UInt8.reduceToNat, stamped] at hb ⊢
      omega
    · rintro ⟨_, ⟨⟩, hlow⟩ hybridID hID
      have hhead : b ≠ 2 ∧ b ≠ 3 := by
        rw [ne_eq, ne_eq, ← UInt8.toNat_inj, ← UInt8.toNat_inj]
        simp only [UInt8.reduceToNat, stamped] at hb ⊢
        omega
      have hload : ∀ value rest', (legacy fields).value = value ++ rest' →
          ofValue value = (FromLegacyDiskFormat value).map fun disk => (disk, true) := by
        intro value rest' hsplit
        apply ofValue_eq_fromLegacy
        cases value with
        | nil => exact ⟨by decide, by decide⟩
        | cons c value =>
          rw [hvalue, cons_append, List.cons.injEq] at hsplit
          rw [← hsplit.1]
          exact hhead
      constructor
      · rw [LoadAllHybridKeys_singleton hID, hload _ [] (append_nil _).symm, value,
          FromLegacyDiskFormat_write hfits hversion]
        rfl
      · intro value rest' hne hsplit
        rw [LoadAllHybridKeys_singleton hID, hload _ _ hsplit,
          FromLegacyDiskFormat_prefix hfits hversion hne hsplit]
        rfl

/-- A record with both keys that stamps the version 70000. -/
def oldRecord : StoredHybridKey :=
  legacy (70000, 1500000000, [1, 2], [2, 9, 9], [77, 76], [5, 6, 7, 8], 42)

theorem oldRecord_decodesExactly : oldRecord.DecodesExactly := by
  have hlengths : 2 ≤ MAX_SIZE ∧ 3 ≤ MAX_SIZE ∧ 4 ≤ MAX_SIZE := by decide
  have hchecksum : (42 : ℕ) < 256 ^ 32 := by decide
  have hfits : legacyCodec.Fits
      (70000, 1500000000, [1, 2], [2, 9, 9], [77, 76], [5, 6, 7, 8], 42) :=
    ⟨⟨by decide, by decide⟩, ⟨by decide, by decide⟩, hlengths.1, hlengths.2.1, hlengths.1,
      hlengths.2.2, hchecksum⟩
  have hvalid : oldRecord.Valid := ⟨hfits, by decide⟩
  exact (decodesExactly_iff hvalid).2.mpr ⟨_, rfl, by decide, by decide⟩

def newRecord : StoredHybridKey := current ⟨2, 0, { secpPub := [] }, 0⟩

theorem newRecord_not_decodesExactly : ¬ newRecord.DecodesExactly :=
  @not_decodesExactly newRecord 2 (List.replicate 40 0) (by decide) (by decide) (Or.inl rfl)

end StoredHybridKey

end Phoenixcoin.Analysis
