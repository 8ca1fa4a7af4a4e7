import Mathlib.Tactic.IntervalCases
import Phoenixcoin.Analysis.HybridOperations
import Phoenixcoin.Program.HybridDump

/-!
# Dump lines of hybrid keys

A printed line is read back: the label by the decoder of its encoding, the creation time by the
first of the time formats, and the words of the line one by one, since none of them holds a blank.
-/

set_option autoImplicit false

namespace Phoenixcoin.Analysis

open Lib Program List Option

/-! ## Labels -/

theorem encodeDumpString_cons (c : UInt8) (str : Text) :
    EncodeDumpStringHybrid (c :: str) =
      (if c ≤ 32 ∨ c ≥ 128 ∨ c = 37 then 37 :: HexStr [c] else [c]) ++
        EncodeDumpStringHybrid str := by
  unfold EncodeDumpStringHybrid
  rw [flatMap_cons]

theorem hexPair_HexStr : ∀ val : Fin 256,
    hexPair (hexmap.getD (val.val / 16) 0) (hexmap.getD (val.val % 16) 0) =
      UInt8.ofNat val.val := by
  decide +kernel

variable {c : UInt8} {text : Text} {v : ℤ} {tm : CivilTime}

theorem DecodeDumpString_plain (hc : c ≠ 37) (str : Text) :
    DecodeDumpStringHybrid (c :: str) = c :: DecodeDumpStringHybrid str := by
  match str with
  | [] => rfl
  | [d] => rfl
  | d :: e :: rest => rw [DecodeDumpStringHybrid, if_neg hc]

theorem DecodeDumpString_encode (str : Text) :
    DecodeDumpStringHybrid (EncodeDumpStringHybrid str) = str := by
  induction str with
  | nil => rfl
  | cons c str ih =>
    rw [encodeDumpString_cons]
    split
    · have hpair := hexPair_HexStr ⟨c.toNat, c.toNat_lt⟩
      simp only [UInt8.ofNat_toNat] at hpair
      simp only [HexStr, flatMap_cons, flatMap_nil, append_nil, cons_append,
        nil_append, DecodeDumpStringHybrid, if_true]
      rw [hpair, ih]
    · next hplain =>
      have hc : c ≠ 37 := by
        intro heq
        exact hplain (Or.inr (Or.inr heq))
      rw [singleton_append, DecodeDumpString_plain hc, ih]

/-- Nothing that an encoded label holds ends a word or a line. -/
theorem encodeDumpString_not_blank {str : Text} (h : c ∈ EncodeDumpStringHybrid str) :
    isBlank c = false := by
  have hdigit : ∀ i : Fin 16, isBlank (hexmap.getD i.val 0) = false := by decide
  obtain ⟨d, -, hd⟩ := mem_flatMap.mp h
  split at hd
  · have hlt := d.toNat_lt
    simp only [HexStr, flatMap_cons, flatMap_nil, append_nil, mem_cons, not_mem_nil, or_false] at hd
    rcases hd with rfl | rfl | rfl
    · decide
    · exact hdigit ⟨d.toNat / 16, by omega⟩
    · exact hdigit ⟨d.toNat % 16, by omega⟩
  · next hplain =>
    obtain rfl := mem_singleton.mp hd
    have hlow : ¬c ≤ 32 := fun hle => hplain (Or.inl hle)
    simp only [UInt8.le_iff_toNat_le, UInt8.reduceToNat] at hlow
    simp only [isBlank, decide_eq_false_iff_not, UInt8.le_iff_toNat_le, ← UInt8.toNat_inj,
      UInt8.reduceToNat]
    omega

/-! ## Keys -/

structure IsWord (word : Text) : Prop where
  ne_nil : word ≠ []
  not_blank : ∀ c ∈ word, isBlank c = false
  not_comment : word.head? ≠ some 35

theorem base58Char_plain (c : ℕ) : isBlank (base58Char c) = false ∧ base58Char c ≠ 35 := by
  have hall : ∀ d ∈ 49 :: pszBase58, isBlank d = false ∧ d ≠ 35 := by
    simp [pszBase58, ascii, charByte, isBlank]
  apply hall
  rw [base58Char, getD_eq_getElem?_getD]
  cases hget : pszBase58[c]? with
  | none => exact mem_cons_self
  | some d => exact mem_cons_of_mem _ (mem_of_getElem? hget)

theorem base64Char_plain (i : ℕ) : isBlank (base64Char i) = false ∧ base64Char i ≠ 35 := by
  have hall : ∀ d ∈ 61 :: pbase64, isBlank d = false ∧ d ≠ 35 := by
    simp [pbase64, ascii, charByte, isBlank]
  apply hall
  rw [base64Char, getD_eq_getElem?_getD]
  cases hget : pbase64[i]? with
  | none => exact mem_cons_self
  | some d => exact mem_cons_of_mem _ (mem_of_getElem? hget)

def Plain (text : Text) : Prop := ∀ c ∈ text, isBlank c = false ∧ c ≠ 35

variable {s : Text} {nTime : ℤ}

theorem Plain.append {t : Text} (hs : Plain s) (ht : Plain t) : Plain (s ++ t) := by
  intro c hc
  rcases mem_append.mp hc with hc | hc
  · exact hs c hc
  · exact ht c hc

theorem Plain.isWord (h : Plain text) (hne : text ≠ []) : IsWord text where
  ne_nil := hne
  not_blank c hc := (h c hc).1
  not_comment heq := (h 35 (mem_of_head? heq)).2 rfl

theorem plain_base58 (vch : valtype) : Plain (EncodeBase58 vch) := by
  intro c hc
  rw [EncodeBase58, mem_reverse, mem_append, List.mem_map, List.mem_map] at hc
  rcases hc with ⟨d, -, rfl⟩ | ⟨d, -, rfl⟩
  · exact base58Char_plain d
  · exact base58Char_plain 0

theorem eq_zero_of_ofLittleEndian {bytes : valtype} (h : ofLittleEndian bytes = 0) :
    ∀ b ∈ bytes, b = 0 := by
  induction bytes with
  | nil => simp
  | cons b bytes ih =>
    rw [ofLittleEndian] at h
    intro c hc
    rcases mem_cons.mp hc with rfl | hc
    · apply UInt8.toNat_inj.mp
      rw [UInt8.toNat_zero]
      omega
    · exact ih (by omega) c hc

theorem base58_ne_nil {vch : valtype} (hne : vch ≠ []) : EncodeBase58 vch ≠ [] := by
  intro h
  rw [EncodeBase58, reverse_eq_nil_iff, append_eq_nil_iff, map_eq_nil_iff,
    Nat.digits_eq_nil_iff_eq_zero] at h
  obtain ⟨hzero, hlead⟩ := h
  cases vch with
  | nil => exact hne rfl
  | cons b vch =>
    have hb : b = 0 := eq_zero_of_ofLittleEndian hzero b (by simp)
    rw [takeWhile_cons_of_pos (by simp [hb])] at hlead
    cases hlead

theorem base64Step_plain {s : Text × ℕ × ℕ} (hs : Plain s.1) (enc : UInt8) :
    Plain (base64Step s enc).1 := by
  have hone : ∀ i, Plain [base64Char i] := by
    intro i c hc
    rw [mem_singleton.mp hc]
    exact base64Char_plain i
  unfold base64Step
  split
  · exact hs.append (hone _)
  · exact hs.append (hone _)
  · exact hs.append ((hone _).append (hone _))

theorem base64Step_length (s : Text × ℕ × ℕ) (enc : UInt8) :
    s.1.length < (base64Step s enc).1.length := by
  unfold base64Step
  split
  · simp
  · simp
  · simp

theorem foldl_base64Step_plain (pch : valtype) {s : Text × ℕ × ℕ} (hs : Plain s.1) :
    Plain (pch.foldl base64Step s).1 ∧ s.1.length + pch.length ≤
      (pch.foldl base64Step s).1.length := by
  induction pch generalizing s with
  | nil => exact ⟨hs, by simp⟩
  | cons enc pch ih =>
    obtain ⟨hplain, hlength⟩ := ih (base64Step_plain hs enc)
    have hstep := base64Step_length s enc
    rw [foldl_cons, length_cons]
    exact ⟨hplain, by omega⟩

theorem base64_isWord {pch : valtype} (hne : pch ≠ []) : IsWord (EncodeBase64 pch) := by
  have hnil : Plain ([] : Text) := by
    intro c hc
    cases hc
  obtain ⟨hplain, hlength⟩ := @foldl_base64Step_plain pch ([], 0, 0) hnil
  have hpos := length_pos_iff.mpr hne
  unfold EncodeBase64
  generalize pch.foldl base64Step ([], 0, 0) = found at hplain hlength
  obtain ⟨strRet, mode, left⟩ := found
  have hstr : strRet ≠ [] := by
    intro h
    rw [h] at hlength
    simp only [length_nil] at hlength
    omega
  have htail : Plain ([base64Char left, 61] ++ if mode = 1 then [61] else []) := by
    intro c hc
    have hcases : c = base64Char left ∨ c = 61 := by
      split at hc
      · simpa using hc
      · simpa using hc
    rcases hcases with rfl | rfl
    · exact base64Char_plain left
    · decide
  simp only
  split
  · exact hplain.isWord hstr
  · rw [append_assoc]
    exact (hplain.append htail).isWord (by simp [hstr])

theorem secretText_isWord (C : KeyCrypto) (fTestNet : Bool) (key : CKey) :
    IsWord (secretText C fTestNet key) := by
  exact (plain_base58 _).isWord (base58_ne_nil (by simp))

/-! ## Times -/

def EndsField (literal : Text) : Prop :=
  ∃ c, literal = [c] ∧ isBlank c = false ∧ isDigit c = false

theorem printInt_of_nonneg (hv : 0 ≤ v) (width : ℕ) :
    printInt width v = paddedNumeral width v.toNat := by
  rw [printInt, if_neg (by omega)]

theorem scannedInt_of_lt (hlow : 0 ≤ v) (hhigh : v < 2 ^ 31) : scannedInt v = v := by
  rw [scannedInt, toInt32, min_eq_right (by omega), max_eq_right (by omega)]
  exact Int.bmod_eq_of_le (by omega) (by omega)

theorem scanTime_printTime {format : TimeFormat} {tm : CivilTime}
    (hends : ∀ field ∈ format, EndsField field.2)
    (hfits : ∀ field : TimeField, 0 ≤ field.get tm ∧ field.get tm < 2 ^ 31) (start : CivilTime) :
    scanTime format (printTime format tm) start =
      some (format.foldl (fun found field => field.1.set found (field.1.get tm)) start) := by
  induction format generalizing start with
  | nil => rfl
  | cons field format ih =>
    obtain ⟨field, literal⟩ := field
    obtain ⟨c, hliteral, hblank, hdigit⟩ := hends _ mem_cons_self
    obtain ⟨hlow, hhigh⟩ := hfits field
    subst hliteral
    have hprint : printTime ((field, [c]) :: format) tm =
        paddedNumeral field.width (field.get tm).toNat ++ c :: printTime format tm := by
      unfold printTime
      rw [flatMap_cons, printInt_of_nonneg hlow, append_assoc, singleton_append]
    have hread := @readInt_paddedNumeral field.width (field.get tm).toNat
      (c :: printTime format tm) (by simpa using hdigit)
    rw [hprint, scanTime, hread, Int.toNat_of_nonneg hlow]
    simp only [bind_eq_bind, bind_some, scannedInt_of_lt hlow hhigh]
    cases format with
    | nil => rfl
    | cons next format =>
      rw [if_neg (cons_ne_nil _ _), scanLiteral, if_neg (by simp [hblank]),
        if_pos (head?_cons), scanLiteral]
      exact ih (fun field hmem => hends field (mem_cons_of_mem _ hmem)) _

theorem day_le_of_valid (h : tm.Valid) :
    tm.day ≤ 31 ∧
      (tm.month = 4 ∨ tm.month = 6 ∨ tm.month = 9 ∨ tm.month = 11 → tm.day ≤ 30) ∧
      (tm.month = 2 → tm.day ≤ if isLeap tm.year then 29 else 28) := by
  obtain ⟨hfirst, hlast⟩ := h.month
  obtain ⟨length, hlength, -, hday⟩ := h.day
  generalize tm.month = month at hfirst hlast hlength
  have hmonth : month = ((month - 1).toNat : ℤ) + 1 := by omega
  generalize (month - 1).toNat = i at hlength hmonth
  have hi : i < 12 := (List.getElem?_eq_some_iff.mp hlength).1
  unfold monthLengths at hlength
  have hleap : isLeap tm.year = true ∨ isLeap tm.year = false := by
    cases isLeap tm.year with
    | true => exact Or.inl rfl
    | false => exact Or.inr rfl
  rcases hleap with hleap | hleap
  · rw [hleap] at hlength ⊢
    interval_cases i
    all_goals
      simp at hlength
      simp only [if_true]
      omega
  · rw [hleap] at hlength ⊢
    interval_cases i
    all_goals
      simp at hlength
      omega

theorem IsValidDateTime_of_valid (h : tm.Valid) : IsValidDateTime tm = true := by
  obtain ⟨hlast, hthirty, hfebruary⟩ := day_le_of_valid h
  obtain ⟨length, -, hfirst, -⟩ := h.day
  have hmonth := h.month
  have hhour := h.hour
  have hmin := h.min
  have hsec := h.sec
  rw [IsValidDateTime, if_neg (by omega), if_neg (by omega), if_neg (by omega)]

def dumpTimeFormat : TimeFormat :=
  [(.year, ascii "-"), (.month, ascii "-"), (.day, ascii "T"), (.hour, ascii ":"),
    (.min, ascii ":"), (.sec, ascii "Z")]

theorem dumpTimeFormat_ends : ∀ field ∈ dumpTimeFormat, EndsField field.2 := by
  have hminus : EndsField (ascii "-") := ⟨45, by decide⟩
  have hday : EndsField (ascii "T") := ⟨84, by decide⟩
  have hcolon : EndsField (ascii ":") := ⟨58, by decide⟩
  have hzone : EndsField (ascii "Z") := ⟨90, by decide⟩
  simp [dumpTimeFormat, hminus, hday, hcolon, hzone]

theorem civil_fits {t : ℤ} (ht : 0 ≤ t) (hyear : (civil t).year < 2 ^ 31) (field : TimeField) :
    0 ≤ field.get (civil t) ∧ field.get (civil t) < 2 ^ 31 := by
  have hvalid := civil_valid t
  have hfirst := le_year_civil ht
  obtain ⟨hlast, -, -⟩ := day_le_of_valid hvalid
  obtain ⟨length, -, hday, -⟩ := hvalid.day
  have hmonth := hvalid.month
  have hhour := hvalid.hour
  have hmin := hvalid.min
  have hsec := hvalid.sec
  cases field with
  | year => exact ⟨by simp only [TimeField.get]; omega, hyear⟩
  | month => exact ⟨by simp only [TimeField.get]; omega, by simp only [TimeField.get]; omega⟩
  | day => exact ⟨by simp only [TimeField.get]; omega, by simp only [TimeField.get]; omega⟩
  | hour => exact ⟨by simp only [TimeField.get]; omega, by simp only [TimeField.get]; omega⟩
  | min => exact ⟨by simp only [TimeField.get]; omega, by simp only [TimeField.get]; omega⟩
  | sec => exact ⟨by simp only [TimeField.get]; omega, by simp only [TimeField.get]; omega⟩

section

variable (ht : 0 ≤ nTime) (h : EncodeDumpTimeHybrid nTime = some s)
include ht h

theorem encodeDumpTime_eq :
    PortableGmtime nTime = some (civil nTime) ∧ (civil nTime).year < 2 ^ 31 ∧
      s = printTime dumpTimeFormat (civil nTime) := by
  obtain ⟨tm, htm, h⟩ := bind_eq_some_iff.mp h
  have hcivil : tm = civil nTime := by
    unfold PortableGmtime at htm
    simp only at htm
    split at htm
    · exact (Option.some.inj htm).symm
    · cases htm
  subst hcivil
  split at h
  · cases h
  · next hyear =>
    have hfirst := le_year_civil ht
    have hwide : printInt 0 (civil nTime).year = printInt 4 (civil nTime).year := by
      rw [printInt_of_nonneg (by omega), printInt_of_nonneg (by omega),
        paddedNumeral_of_le (by decide) (by omega)]
      simp [paddedNumeral]
    refine ⟨htm, by omega, ?_⟩
    rw [← Option.some.inj h, hwide]
    simp [printTime, dumpTimeFormat, TimeField.width, TimeField.get]

theorem DecodeDumpTime_encode : DecodeDumpTimeHybrid s = some nTime := by
  obtain ⟨hgmtime, hyear, rfl⟩ := encodeDumpTime_eq ht h
  have hscan := @scanTime_printTime dumpTimeFormat (civil nTime) dumpTimeFormat_ends
    (civil_fits ht hyear) ⟨0, 0, 0, 0, 0, 0⟩
  have hfound : dumpTimeFormat.foldl
      (fun found field => field.1.set found (field.1.get (civil nTime))) ⟨0, 0, 0, 0, 0, 0⟩ =
        civil nTime := rfl
  rw [hfound] at hscan
  have hblock : decodeTimeAs (printTime dumpTimeFormat (civil nTime)) dumpTimeFormat =
      some nTime := by
    rw [decodeTimeAs, hscan]
    simp only [bind_eq_bind, bind_some, seconds_civil, hgmtime,
      IsValidDateTime_of_valid (civil_valid nTime), ne_eq, not_true_eq_false, if_false]
    rw [if_neg (by omega)]
  have hne : printTime dumpTimeFormat (civil nTime) ≠ [] := by
    simp [printTime, dumpTimeFormat, ascii]
  have hfirst : dumpTimeFormats = dumpTimeFormat :: dumpTimeFormats.tail := rfl
  rw [DecodeDumpTimeHybrid, if_neg hne, hfirst, findSome?_cons, hblock]

theorem encodeDumpTime_isWord :
    IsWord s := by
  obtain ⟨-, hyear, rfl⟩ := encodeDumpTime_eq ht h
  have hplain : Plain (printTime dumpTimeFormat (civil nTime)) := by
    intro c hc
    obtain ⟨field, hfield, hc⟩ := mem_flatMap.mp hc
    obtain ⟨hlow, hhigh⟩ := civil_fits ht hyear field.1
    rw [printInt_of_nonneg hlow, mem_append] at hc
    rcases hc with hc | hc
    · have hdigit := paddedNumeral_isDigit hc
      refine ⟨(not_sign_of_isDigit hdigit).1, ?_⟩
      rintro rfl
      exact absurd hdigit (by decide)
    · have hliterals : ∀ field ∈ dumpTimeFormat, ∀ c ∈ field.2, isBlank c = false ∧ c ≠ 35 := by
        simp [dumpTimeFormat, ascii, charByte, isBlank]
      exact hliterals field hfield c hc
  apply hplain.isWord
  simp [printTime, dumpTimeFormat, ascii]

end

/-! ## Lines -/

variable (C : KeyCrypto) (fTestNet : Bool) (w : HybridWallet) (hybridID : CHybridKeyID)

theorem dumpFlags_isWord : IsWord (w.dumpFlags hybridID) := by
  have hblank : ∀ text ∈ [ascii "label=", ascii "reserve=1", ascii "change=1"],
      ∀ c ∈ text, isBlank c = false := by
    simp [ascii, charByte, isBlank]
  unfold HybridWallet.dumpFlags
  split
  · constructor
    · simp [ascii]
    · intro c hc
      rcases mem_append.mp hc with hc | hc
      · exact hblank _ (by simp) c hc
      · exact encodeDumpString_not_blank hc
    · simp only [ascii, String.reduceToList, map_cons, cons_append, head?_cons]
      decide
  · split
    · exact ⟨by decide, hblank _ (by simp), by decide⟩
    · exact ⟨by decide, hblank _ (by simp), by decide⟩

/-- The flags of a line give the label back. -/
theorem readLabel_dumpFlags (comment : List Text) :
    readLabel (w.dumpFlags hybridID :: ascii "#" :: comment) = w.hybridLabel hybridID := by
  have hword := dumpFlags_isWord w hybridID
  have hsign : ¬(ascii "#").isPrefixOf (w.dumpFlags hybridID) = true := by
    have hhead := hword.not_comment
    cases hflags : w.dumpFlags hybridID with
    | nil => exact absurd hflags hword.ne_nil
    | cons c flags =>
      rw [hflags] at hhead
      intro hstarts
      have hc : (35 : UInt8) = c := by
        simpa [ascii, charByte] using hstarts
      exact hhead (congrArg some hc.symm)
  have hstop : (w.dumpFlags hybridID :: ascii "#" :: comment).takeWhile
      (fun word => ¬(ascii "#").isPrefixOf word) = [w.dumpFlags hybridID] := by
    rw [takeWhile_cons_of_pos (by simpa using hsign), takeWhile_cons_of_neg (by decide)]
  rw [readLabel, hstop, foldl_cons, foldl_nil]
  unfold HybridWallet.dumpFlags
  split
  · next hlabel =>
    have hstarts : (ascii "label=").isPrefixOf
        (ascii "label=" ++ EncodeDumpStringHybrid (w.hybridLabel hybridID)) = true :=
      List.isPrefixOf_iff_prefix.mpr (prefix_append _ _)
    have hlength : (ascii "label=").length = 6 := rfl
    unfold labelStep
    simp only [hstarts, if_true]
    rw [drop_left' hlength, DecodeDumpString_encode]
  · next hlabel =>
    have hnil : w.hybridLabel hybridID = [] := not_not.mp hlabel
    rw [hnil]
    split
    · decide
    · decide

theorem dumpLine_eq {hk : CHybridKey} (hvalid : hk.Validate C)
    (h : w.dumpLine C fTestNet hybridID hk = some text) :
    ∃ wif derB64 strTime comment,
      EncodeHybridPrivKey C fTestNet w.toCKeyStore hk = some (wif, derB64) ∧
        EncodeDumpTimeHybrid hk.nCreateTime = some strTime ∧
        text = wif ++ 32 :: (derB64 ++ 32 :: (strTime ++ 32 :: (w.dumpFlags hybridID ++
          32 :: (ascii "#" ++ 32 :: comment)))) ++ [10] ∧
        10 ∉ comment := by
  unfold HybridWallet.dumpLine at h
  simp only [bind_eq_bind, bind_eq_some_iff, Prod.exists] at h
  obtain ⟨wif, derB64, hkey, strTime, htime, h⟩ := h
  have halg : hk.mldsaAlg = MLDSA_ALG := by
    unfold CHybridKey.Validate at hvalid
    simp only [Bool.and_eq_true, decide_eq_true_eq] at hvalid
    exact hvalid.1.1.1.2
  refine ⟨wif, derB64, strTime, ascii "addr=" ++ hybridAddressText C fTestNet hybridID ++
    ascii " # mldsa_alg=" ++ MLDSA_ALG, hkey, htime, ?_, ?_⟩
  · rw [← Option.some.inj h, halg]
    simp [ascii, charByte]
  · have haddress : 10 ∉ hybridAddressText C fTestNet hybridID := by
      intro hmem
      exact absurd (plain_base58 _ 10 hmem).1 (by decide)
    have hfixed : 10 ∉ ascii "addr=" ∧ 10 ∉ ascii " # mldsa_alg=" ∧ 10 ∉ MLDSA_ALG := by
      with_unfolding_all decide
    simp [haddress, hfixed]

/-- Reading a printed line gives the components of the key, its time and its label. -/
theorem dumpLine_roundTrip {hk : CHybridKey} {text : Text} (hvalid : hk.Validate C)
    (h : w.dumpLine C fTestNet hybridID hk = some text) (rest : Text) :
    ∃ wif derB64, EncodeHybridPrivKey C fTestNet w.toCKeyStore hk = some (wif, derB64) ∧
      readImportLine (getline (text ++ rest)).1 =
        .key wif derB64 hk.nCreateTime (w.hybridLabel hybridID) ∧
      (getline (text ++ rest)).2 = rest := by
  obtain ⟨wif, derB64, strTime, comment, hkey, htime, rfl, hcomment⟩ :=
    dumpLine_eq C fTestNet w hybridID hvalid h
  have hpos : 0 < hk.nCreateTime := by
    unfold CHybridKey.Validate at hvalid
    simp only [Bool.and_eq_true, decide_eq_true_eq] at hvalid
    exact hvalid.2
  obtain ⟨hwif, hder⟩ : IsWord wif ∧ IsWord derB64 := by
    unfold EncodeHybridPrivKey at hkey
    simp only [bind_eq_bind, bind_eq_some_iff] at hkey
    obtain ⟨key, -, der, -, hkey⟩ := hkey
    split at hkey
    · cases hkey
    · next hne =>
      obtain ⟨rfl, rfl⟩ := Prod.mk.inj (Option.some.inj hkey)
      exact ⟨secretText_isWord C fTestNet key, base64_isWord hne⟩
  have hstrTime := encodeDumpTime_isWord hpos.le htime
  have hflags := dumpFlags_isWord w hybridID
  have hwords : words (wif ++ 32 :: (derB64 ++ 32 :: (strTime ++ 32 :: (w.dumpFlags hybridID ++
      32 :: (ascii "#" ++ 32 :: comment))))) =
        wif :: derB64 :: strTime :: w.dumpFlags hybridID :: ascii "#" :: words comment := by
    rw [words_append_cons hwif.ne_nil hwif.not_blank (by decide),
      words_append_cons hder.ne_nil hder.not_blank (by decide),
      words_append_cons hstrTime.ne_nil hstrTime.not_blank (by decide),
      words_append_cons hflags.ne_nil hflags.not_blank (by decide),
      words_append_cons (by simp [ascii]) (by simp [ascii, charByte, isBlank]) (by decide)]
  have hinline : ∀ word, IsWord word → 10 ∉ word := by
    intro word hword hmem
    exact absurd (hword.not_blank 10 hmem) (by decide)
  have hline : 10 ∉ wif ++ 32 :: (derB64 ++ 32 :: (strTime ++ 32 :: (w.dumpFlags hybridID ++
      32 :: (ascii "#" ++ 32 :: comment)))) := by
    have hsign : 10 ∉ ascii "#" := by decide
    simp [hinline _ hwif, hinline _ hder, hinline _ hstrTime, hinline _ hflags, hsign, hcomment]
  have hstart : (wif ++ 32 :: (derB64 ++ 32 :: (strTime ++ 32 :: (w.dumpFlags hybridID ++
      32 :: (ascii "#" ++ 32 :: comment))))).head? = wif.head? := by
    cases wif with
    | nil => exact absurd rfl hwif.ne_nil
    | cons c wif => rfl
  generalize wif ++ 32 :: (derB64 ++ 32 :: (strTime ++ 32 :: (w.dumpFlags hybridID ++
    32 :: (ascii "#" ++ 32 :: comment)))) = line at hwords hline hstart
  have hkeep : ∀ c ∈ line, decide (c ≠ 10) = true := by
    intro c hc
    rw [decide_eq_true_eq]
    rintro rfl
    exact hline hc
  obtain ⟨htake, hdrop⟩ := @takeWhile_dropWhile_append (· ≠ 10) line (10 :: rest) hkeep (by simp)
  have hend : line ++ [10] ++ rest = line ++ 10 :: rest := by simp
  have hne : ¬(line = [] ∨ line.head? = some 35) := by
    rintro (rfl | hsign)
    · cases hwords
    · exact hwif.not_comment (hstart ▸ hsign)
  refine ⟨wif, derB64, hkey, ?_, ?_⟩
  · rw [getline, readImportLine, hend, htake, if_neg hne, hwords]
    simp only [DecodeDumpTime_encode hpos.le htime, readLabel_dumpFlags]
    rw [if_neg (by omega)]
  · rw [getline, hend, hdrop, tail_cons]

/-- A key of the wallet below. -/
def dumpedKey : CHybridKey where
  secpPriv := List.replicate 32 1
  secpPub := 2 :: List.replicate 32 1
  mldsaAlg := MLDSA_ALG
  mldsaSigner := some [1, 2]
  nCreateTime := 1700000000

/-- A label with a blank, the sign of a comment, a percent sign and a high byte. -/
def dumpedLabel : Text := [65, 32, 35, 37, 200]

def dumpedWallet : HybridWallet := { newHybridWallet with
  mapKeys := Finmap.singleton (exampleCrypto.GetID dumpedKey.secpPub) (List.replicate 32 1, true)
  mapHybridKeys := Finmap.singleton 7 dumpedKey
  mapHybridAddressBook := Finmap.singleton 7 ⟨1, 1, dumpedLabel, []⟩ }

theorem dumpLine_roundTrip_labelled :
    ∃ text, dumpedWallet.dumpLine exampleCrypto false 7 dumpedKey = some text ∧
      ∃ wif derB64, readImportLine (getline (text ++ text)).1 =
        .key wif derB64 1700000000 dumpedLabel := by
  have hvalid : dumpedKey.Validate exampleCrypto = true := by with_unfolding_all decide
  have hprinted : (dumpedWallet.dumpLine exampleCrypto false 7 dumpedKey).isSome := by
    decide
  have hlabel : dumpedWallet.hybridLabel 7 = dumpedLabel := by decide
  obtain ⟨text, htext⟩ := isSome_iff_exists.mp hprinted
  obtain ⟨wif, derB64, -, hread, -⟩ :=
    dumpLine_roundTrip exampleCrypto false dumpedWallet 7 hvalid htext text
  exact ⟨text, htext, wif, derB64, hlabel ▸ hread⟩

end Phoenixcoin.Analysis
