import Phoenixcoin.Analysis.AccountMoves
import Phoenixcoin.Program.EntryRecords

/-!
# Round trips of accounting entries and wallet transactions

An accounting entry keeps its map and its order position behind a zero byte in its comment. It is
read back as it was, and left alone by the write, exactly if its strings are short enough and its
comment has no zero byte of its own: the first zero of the stored comment is where both the reader
and the writer cut it.

A wallet transaction keeps the same things as texts under reserved keys of its map. It is read back
as it was but for change flags of which none is set. They leave no text, so the reader takes the
record for one from before there were change flags.
-/

set_option autoImplicit false

namespace Phoenixcoin.Analysis

open Lib Program List Option AccountingEntry Decoder CWalletTxRecord

/-! ## Maps of strings -/

/-- The keys of a `std::map` ascend. -/
def Ascending (mapValue : MapValue) : Prop := mapValue.Pairwise fun item item' => item.1 < item'.1

variable {mapValue : MapValue}

theorem Ascending.filter (h : Ascending mapValue) (p : List UInt8 × List UInt8 → Bool) :
    Ascending (mapValue.filter p) :=
  Pairwise.filter p h

theorem mapInsert_of_lt {item : List UInt8 × List UInt8} (h : ∀ other ∈ mapValue, other.1 < item.1)
    :
    mapInsert mapValue item = mapValue ++ [item] := by
  have hkey : item.1 ∉ mapValue.map Prod.fst := by
    intro hmem
    obtain ⟨other, hother, heq⟩ := List.mem_map.mp hmem
    exact List.lt_irrefl item.1 (heq ▸ h other hother)
  have hall : ∀ other ∈ mapValue, decide (¬ item.1 ≤ other.1) = true := by
    intro other hother
    simpa using h other hother
  rw [mapInsert, if_neg hkey, orderedInsert_eq_take_drop,
    takeWhile_eq_self_iff.mpr hall, dropWhile_eq_nil_iff.mpr hall]

theorem Ascending.foldl_mapInsert (h : Ascending mapValue) :
    mapValue.foldl mapInsert [] = mapValue := by
  have hfold : ∀ read rest : MapValue, Ascending (read ++ rest) →
      rest.foldl mapInsert read = read ++ rest := by
    intro read rest
    induction rest generalizing read with
    | nil => simp
    | cons item rest ih =>
      intro hsorted
      have hlast : ∀ other ∈ read, other.1 < item.1 := fun other hother =>
        (pairwise_append.mp hsorted).2.2 other hother item mem_cons_self
      rw [foldl_cons, mapInsert_of_lt hlast, ih]
      · simp
      · simpa using hsorted
  simpa using hfold [] mapValue h

theorem notMem_keys_mapErase (key : String) (mapValue : MapValue) :
    key.toUTF8.toList ∉ (mapErase key mapValue).map Prod.fst := by
  simp [mapErase]

theorem mapSet_eq (key : String) (value : List UInt8) (mapValue : MapValue) :
    mapSet key value mapValue = (mapErase key mapValue).orderedInsert
      (fun item item' => item.1 ≤ item'.1) (key.toUTF8.toList, value) := by
  rw [mapSet, mapInsert, if_neg (notMem_keys_mapErase key mapValue)]

theorem Ascending.mapSet (h : Ascending mapValue) (key : String) (value : List UInt8) :
    Ascending (mapSet key value mapValue) := by
  have hne := notMem_keys_mapErase key mapValue
  have hsorted : Ascending (mapErase key mapValue) := h.filter _
  rw [mapSet_eq]
  generalize mapErase key mapValue = items at hne hsorted
  generalize key.toUTF8.toList = k at hne
  unfold Ascending at hsorted ⊢
  induction items with
  | nil => simp
  | cons item items ih =>
    rw [map_cons, mem_cons, not_or] at hne
    rw [pairwise_cons] at hsorted
    rw [orderedInsert_cons]
    split
    · next hle =>
      have hlt : k < item.1 := by
        by_contra hnot
        exact hne.1 (List.le_antisymm hle (List.not_lt.mp hnot))
      refine pairwise_cons.mpr ⟨?_, pairwise_cons.mpr hsorted⟩
      intro other hother
      rcases mem_cons.mp hother with rfl | hother
      · exact hlt
      · exact List.lt_trans hlt (hsorted.1 other hother)
    · next hle =>
      refine pairwise_cons.mpr ⟨?_, ih hsorted.2 hne.2⟩
      intro other hother
      rcases (mem_orderedInsert _).mp hother with rfl | hother
      · exact List.not_le.mp hle
      · exact hsorted.1 other hother

theorem filter_mapSet {p : List UInt8 × List UInt8 → Bool} {key : String}
    (hp : ∀ value, p (key.toUTF8.toList, value) = false) (value : List UInt8)
    (mapValue : MapValue) : (mapSet key value mapValue).filter p = mapValue.filter p := by
  have herase : (mapErase key mapValue).filter p = mapValue.filter p := by
    rw [mapErase, List.filter_filter]
    generalize key.toUTF8.toList = k at hp
    refine filter_congr fun item _ => ?_
    by_cases hkey : item.1 = k
    · have hitem : item = (k, item.2) := by rw [← hkey]
      rw [hitem, hp]
      rfl
    · simp [hkey]
  have hkey : ¬ p (key.toUTF8.toList, value) = true := by rw [hp]; decide
  rw [mapSet_eq, orderedInsert_eq_take_drop, filter_append,
    filter_cons_of_neg hkey, ← filter_append, takeWhile_append_dropWhile, herase]

theorem mapValueFind_mapSet (key key' : String) (value : List UInt8) (mapValue : MapValue) :
    mapValueFind (mapSet key value mapValue) key' =
      if key'.toUTF8.toList = key.toUTF8.toList then some value
      else mapValueFind mapValue key' := by
  rw [mapSet_eq]
  unfold mapValueFind mapErase at *
  generalize key.toUTF8.toList = k at *
  generalize key'.toUTF8.toList = k'
  rw [orderedInsert_eq_take_drop, find?_append, find?_cons]
  by_cases hkey : k' = k
  · subst hkey
    rw [find?_eq_none.mpr]
    · simp
    · intro item hitem
      have hmem := takeWhile_subset _ hitem
      simpa using (mem_filter.mp hmem).2
  · have herase : (mapValue.filter fun item => item.1 ≠ k).find? (fun item => item.1 = k') =
        mapValue.find? fun item => item.1 = k' := by
      rw [find?_filter]
      congr 1
      funext item
      by_cases hitem : item.1 = k'
      · simp [hitem, hkey]
      · simp [hitem]
    have hfirst : decide (k = k') = false := decide_eq_false fun heq => hkey heq.symm
    simp only [hfirst, if_neg hkey]
    rw [← find?_append, takeWhile_append_dropWhile, herase]

theorem mapValueFind_eq_none {key : String} (h : key.toUTF8.toList ∉ mapValue.map Prod.fst) :
    mapValueFind mapValue key = none := by
  rw [mapValueFind, find?_eq_none.mpr]
  · rfl
  · intro item hitem heq
    exact h (of_decide_eq_true heq ▸ mem_map_of_mem hitem)

theorem mem_le_length_flatten {α : Type} {xs : List (List α)} {x : List α} (h : x ∈ xs) :
    x.length ≤ xs.flatten.length := by
  obtain ⟨before, after, rfl⟩ := append_of_mem h
  simp only [flatten_append, flatten_cons, length_append]
  omega

theorem length_WriteCompactSize_pos (n : ℕ) : 0 < (WriteCompactSize n).length := by
  rw [length_WriteCompactSize]
  unfold getSizeOfCompactSize
  split_ifs <;> omega

theorem stringCodec_write (s : List UInt8) : stringCodec.write s = WriteCompactSize s.length ++ s :=
  rfl

/-- A map that takes at most `MAX_SIZE` bytes fits with all its strings. -/
theorem Ascending.fits (h : Ascending mapValue)
    (hlength : ((mapCodec stringCodec stringCodec).write mapValue).length ≤ MAX_SIZE) :
    (mapCodec stringCodec stringCodec).Fits mapValue := by
  have hwrite : (mapCodec stringCodec stringCodec).write mapValue =
      WriteCompactSize mapValue.length ++
        (mapValue.map fun item => stringCodec.write item.1 ++ stringCodec.write item.2).flatten :=
    rfl
  rw [hwrite, length_append] at hlength
  have hitem : ∀ item ∈ mapValue, item.1.length ≤ MAX_SIZE ∧ item.2.length ≤ MAX_SIZE := by
    intro item hitem
    have hle := mem_le_length_flatten (mem_map.mpr ⟨item, hitem, rfl⟩ :
      stringCodec.write item.1 ++ stringCodec.write item.2 ∈
        mapValue.map fun item => stringCodec.write item.1 ++ stringCodec.write item.2)
    simp only [stringCodec_write, length_append] at hle hlength
    omega
  have hcount : mapValue.length ≤
      (mapValue.map fun item => stringCodec.write item.1 ++
        stringCodec.write item.2).flatten.length := by
    clear h hwrite hlength hitem
    induction mapValue with
    | nil => simp
    | cons item mapValue ih =>
      have hpos := length_WriteCompactSize_pos item.1.length
      simp only [map_cons, flatten_cons, length_cons, length_append, stringCodec_write] at ih ⊢
      omega
  refine ⟨⟨?_, hitem⟩, h.foldl_mapInsert⟩
  show mapValue.length ≤ MAX_SIZE
  omega

/-! ## Lengths of strings -/

/-- A size that is read back is at most `MAX_SIZE`. -/
theorem le_of_eval_WriteCompactSize {n m : ℕ} {rest s' : List UInt8} (hn : n < 2 ^ 64)
    (h : ReadCompactSize.eval (WriteCompactSize n ++ rest) = some (m, s')) : n ≤ MAX_SIZE := by
  have hlong : ∀ width least, n < 256 ^ width →
      (readLongSize width least).eval (toLittleEndian width n ++ rest) = some (m, s') →
        n ≤ MAX_SIZE := by
    intro width least hwidth hread
    rw [readLongSize, eval_read, readBytes_append (length_toLittleEndian _ _),
      ofLittleEndian_toLittleEndian hwidth] at hread
    split at hread
    · simp at hread
    · exact (eval_checkCompactSize_eq_some hread).2.2
  by_contra hlarge
  have hmax : 0xFFFF < MAX_SIZE := by decide
  rw [WriteCompactSize, if_neg (by omega), if_neg (by omega)] at h
  split at h
  · rw [cons_append, eval_ReadCompactSize_cons] at h
    exact hlarge (hlong 4 _ (by omega) h)
  · rw [cons_append, eval_ReadCompactSize_cons] at h
    exact hlarge (hlong 8 _ (by omega) h)

theorem length_le_of_eval_write {s rest : List UInt8} {result : List UInt8 × List UInt8}
    (hs : s.length < 2 ^ 64)
    (h : stringCodec.decoder.eval (stringCodec.write s ++ rest) = some result) :
    s.length ≤ MAX_SIZE := by
  obtain ⟨n, s₁, hcount, -⟩ := eval_bind_eq_some.mp h
  rw [stringCodec_write, append_assoc] at hcount
  exact le_of_eval_WriteCompactSize hs hcount

/-! ## Accounting entries -/

/-- An entry as the node can hold it: its numbers have their types, the keys of its map ascend
and are not the reserved one. -/
structure EntryInMemory (acentry : AccountingEntry) : Prop where
  nCreditDebit_fits : int64Codec.Fits acentry.nCreditDebit
  nTime_fits : int64Codec.Fits acentry.nTime
  nOrderPos_fits : int64Codec.Fits acentry.nOrderPos
  nEntryNo_lt : acentry.nEntryNo < 2 ^ 64
  keys_ascend : Ascending acentry.mapValue
  not_reserved : "n".toUTF8.toList ∉ acentry.mapValue.map Prod.fst
  strAccount_lt : acentry.strAccount.length < 2 ^ 64
  strOtherAccount_lt : acentry.strOtherAccount.length < 2 ^ 64
  packedComment_lt : acentry.packedComment.length < 2 ^ 64

/-- The fields that a user sees. -/
structure SameAccountingEntry (acentry acentry' : AccountingEntry) : Prop where
  strAccount_eq : acentry.strAccount = acentry'.strAccount
  nCreditDebit_eq : acentry.nCreditDebit = acentry'.nCreditDebit
  nTime_eq : acentry.nTime = acentry'.nTime
  strOtherAccount_eq : acentry.strOtherAccount = acentry'.strOtherAccount
  strComment_eq : acentry.strComment = acentry'.strComment
  mapValue_eq : acentry.mapValue = acentry'.mapValue
  nOrderPos_eq : acentry.nOrderPos = acentry'.nOrderPos

def EntryRoundTrips (nVersion : StreamVersion) (acentry : AccountingEntry) : Prop :=
  (∃ acentry', read nVersion (acentry.write nVersion) = some acentry' ∧
    SameAccountingEntry acentry' acentry) ∧ acentry.afterWrite = acentry

theorem mapErase_WriteOrderPos (nOrderPos : ℤ) (h : "n".toUTF8.toList ∉ mapValue.map Prod.fst) :
    mapErase "n" (WriteOrderPos nOrderPos mapValue) = mapValue := by
  have herase : mapErase "n" mapValue = mapValue := by
    rw [mapErase, filter_eq_self]
    intro item hitem
    exact decide_eq_true fun hkey => h (hkey ▸ mem_map_of_mem hitem)
  unfold WriteOrderPos
  split
  · exact herase
  · rw [mapErase, filter_mapSet]
    · exact herase
    · simp

theorem ReadOrderPos_WriteOrderPos {nOrderPos : ℤ} (hfits : int64Codec.Fits nOrderPos)
    (h : mapValueFind mapValue "n" = none) :
    ReadOrderPos (WriteOrderPos nOrderPos mapValue) = nOrderPos := by
  unfold WriteOrderPos ReadOrderPos
  split
  · next hunset =>
    rw [h, hunset]
    rfl
  · have hbounds : -256 ^ 8 ≤ 2 * nOrderPos ∧ 2 * nOrderPos < 256 ^ 8 := hfits
    rw [mapValueFind_mapSet, if_pos rfl, map_some]
    exact atoi64_i64tostr (by omega) (by omega)

theorem Ascending_WriteOrderPos (nOrderPos : ℤ) (h : Ascending mapValue) :
    Ascending (WriteOrderPos nOrderPos mapValue) := by
  unfold WriteOrderPos
  split
  · exact h
  · exact h.mapSet _ _

/-- A comment without a zero byte comes back from what is stored, with the map behind it. -/
theorem ofRecord_toRecord {acentry : AccountingEntry} (hok : EntryInMemory acentry)
    (hzero : 0 ∉ acentry.strComment) (hlength : acentry.packedComment.length ≤ MAX_SIZE) :
    ofRecord acentry.strAccount acentry.nEntryNo acentry.toRecord =
      some acentry := by
  have hcomment : ∀ c ∈ acentry.strComment, decide (c ≠ 0) = true := by
    intro c hc
    simpa using fun hc0 : c = 0 => hzero (hc0 ▸ hc)
  have hmap := mapErase_WriteOrderPos acentry.nOrderPos hok.not_reserved
  have hpos := ReadOrderPos_WriteOrderPos hok.nOrderPos_fits (mapValueFind_eq_none hok.not_reserved)
  have hascending := Ascending_WriteOrderPos acentry.nOrderPos hok.keys_ascend
  unfold ofRecord toRecord
  unfold packedComment at hlength ⊢
  generalize WriteOrderPos acentry.nOrderPos acentry.mapValue = items at *
  by_cases hempty : items = [] ∧ acentry.ssExtra = []
  · have htake := takeWhile_eq_self_iff.mpr hcomment
    have hdrop := dropWhile_eq_nil_iff.mpr hcomment
    simp only [if_pos hempty, hdrop, htake, some.injEq]
    rw [hempty.1] at hmap hpos
    simp [hmap, hpos, ← hempty.2]
  · have hfits : (mapCodec stringCodec stringCodec).Fits items := by
      apply hascending.fits
      rw [if_neg hempty] at hlength
      simp only [length_append, length_cons] at hlength
      omega
    simp only [if_neg hempty, append_assoc, cons_append]
    rw [dropWhile_append_of_pos hcomment, takeWhile_append_of_pos hcomment]
    have hread := Codec.eval_write_append _ hfits acentry.ssExtra
    simp [hread, hmap, hpos]

theorem lengths_of_eval_codec {nVersion : StreamVersion} {acentry : CAccountingEntry}
    (hamount : int64Codec.Fits acentry.nCreditDebit) (htime : int64Codec.Fits acentry.nTime)
    (hother : acentry.strOtherAccount.length < 2 ^ 64)
    (hcomment : acentry.strComment.length < 2 ^ 64)
    {result : CAccountingEntry × List UInt8}
    (h : (CAccountingEntry.codec nVersion).decoder.eval
      ((CAccountingEntry.codec nVersion).write acentry) = some result) :
    acentry.strOtherAccount.length ≤ MAX_SIZE ∧ acentry.strComment.length ≤ MAX_SIZE := by
  have hwrite : (CAccountingEntry.codec nVersion).write acentry =
      intCodec32.write nVersion.1 ++ (int64Codec.write acentry.nCreditDebit ++
        (int64Codec.write acentry.nTime ++ (stringCodec.write acentry.strOtherAccount ++
          (stringCodec.write acentry.strComment ++ [])))) := by
    rw [append_nil]
    rfl
  rw [hwrite] at h
  obtain ⟨_, _, h, -⟩ := eval_bind_eq_some.mp h
  obtain ⟨_, h, -⟩ := eval_map_eq_some.mp h
  obtain ⟨_, h, -⟩ := eval_map_eq_some.mp h
  obtain ⟨_, s, hversion, h⟩ := eval_bind_eq_some.mp h
  rw [Codec.eval_write_append _ nVersion.2, some.injEq, Prod.mk.injEq] at hversion
  obtain ⟨_, h, -⟩ := eval_map_eq_some.mp h
  obtain ⟨_, s₁, hread, h⟩ := eval_bind_eq_some.mp h
  rw [← hversion.2, Codec.eval_write_append _ hamount, some.injEq, Prod.mk.injEq] at hread
  obtain ⟨_, h, -⟩ := eval_map_eq_some.mp h
  obtain ⟨_, s₂, hread', h⟩ := eval_bind_eq_some.mp h
  rw [← hread.2, Codec.eval_write_append _ htime, some.injEq, Prod.mk.injEq] at hread'
  obtain ⟨_, h, -⟩ := eval_map_eq_some.mp h
  obtain ⟨_, s₃, hstring, h⟩ := eval_bind_eq_some.mp h
  rw [← hread'.2] at hstring
  have hlength := length_le_of_eval_write hother hstring
  rw [Codec.eval_write_append stringCodec hlength, some.injEq, Prod.mk.injEq] at hstring
  obtain ⟨_, h, -⟩ := eval_map_eq_some.mp h
  rw [← hstring.2] at h
  exact ⟨hlength, length_le_of_eval_write hcomment h⟩

/-- Every entry whose strings are short enough and whose comment has no zero byte of its own is
read back, and no other. -/
theorem entryRoundTrips_iff (nVersion : StreamVersion) {acentry : AccountingEntry}
    (hok : EntryInMemory acentry) :
    EntryRoundTrips nVersion acentry ↔ 0 ∉ acentry.strComment ∧
      acentry.strAccount.length ≤ MAX_SIZE ∧ acentry.strOtherAccount.length ≤ MAX_SIZE ∧
        acentry.packedComment.length ≤ MAX_SIZE := by
  have hkey : (acentry.write nVersion).1 = stringCodec.write "acentry".toUTF8.toList ++
      (stringCodec.write acentry.strAccount ++
        ((uintCodec 8 uint64_pos).write acentry.nEntryNo ++ [])) := by
    rfl
  have htype : stringCodec.Fits "acentry".toUTF8.toList := by
    show "acentry".toUTF8.toList.length ≤ MAX_SIZE
    with_unfolding_all decide
  constructor
  · rintro ⟨⟨acentry', hread, -⟩, hafter⟩
    have hzero : 0 ∉ acentry.strComment := by
      have hcomment : acentry.strComment = acentry.packedComment.takeWhile (· ≠ 0) := by
        conv_lhs => rw [← hafter]
        rfl
      rw [hcomment]
      intro hmem
      simpa using mem_takeWhile_imp hmem
    unfold AccountingEntry.read at hread
    simp only [hkey, Codec.eval_write_append _ htype, bind_eq_bind, bind_some,
      if_true, bind_eq_some_iff] at hread
    obtain ⟨_, haccount, _, hentry, -⟩ := hread
    have hlengths := lengths_of_eval_codec hok.nCreditDebit_fits hok.nTime_fits
      hok.strOtherAccount_lt hok.packedComment_lt hentry
    exact ⟨hzero, length_le_of_eval_write hok.strAccount_lt haccount, hlengths⟩
  · rintro ⟨hzero, haccount, hother, hlength⟩
    have hmemory := ofRecord_toRecord hok hzero hlength
    have hpacked : acentry.packedComment.takeWhile (· ≠ 0) = acentry.strComment ∧
        mapErase "n" (WriteOrderPos acentry.nOrderPos acentry.mapValue) = acentry.mapValue := by
      refine ⟨?_, mapErase_WriteOrderPos _ hok.not_reserved⟩
      have hcomment : ∀ c ∈ acentry.strComment, decide (c ≠ 0) = true := by
        intro c hc
        simpa using fun hc0 : c = 0 => hzero (hc0 ▸ hc)
      unfold AccountingEntry.packedComment
      dsimp only
      split
      · exact takeWhile_eq_self_iff.mpr hcomment
      · rw [append_assoc, takeWhile_append_of_pos hcomment]
        simp
    refine ⟨⟨acentry, ?_, ⟨rfl, rfl, rfl, rfl, rfl, rfl, rfl⟩⟩, ?_⟩
    · have hdecodes : acentry.toRecord.mapValueDecodes = true := by
        unfold CAccountingEntry.mapValueDecodes
        unfold AccountingEntry.ofRecord at hmemory
        split
        · rfl
        · next hdrop =>
          simp only [hdrop, map_eq_some_iff] at hmemory
          obtain ⟨_, hsome, -⟩ := hmemory
          exact isSome_of_eq_some hsome
      have hfits : (CAccountingEntry.codec nVersion).Fits acentry.toRecord :=
        ⟨hdecodes, rfl, hok.nCreditDebit_fits, hok.nTime_fits, hother, hlength⟩
      have hvalue := Codec.eval_write_append _ hfits []
      have hnumber : (uintCodec 8 uint64_pos).Fits acentry.nEntryNo := hok.nEntryNo_lt
      have hstrAccount : stringCodec.Fits acentry.strAccount := haccount
      rw [append_nil] at hvalue
      rw [AccountingEntry.read, hkey]
      simp only [Codec.eval_write_append _ htype, Codec.eval_write_append _ hstrAccount,
        Codec.eval_write_append _ hnumber, AccountingEntry.write, hvalue, bind_eq_bind,
        bind_some, if_true]
      exact hmemory
    · rw [AccountingEntry.afterWrite, hpacked.1, hpacked.2]

namespace EntryOfOldWallet

/-- An entry of the account without a name, at a position. -/
def acentry : AccountingEntry where
  strAccount := []
  nCreditDebit := 5
  nTime := 7
  strOtherAccount := [98]
  strComment := [97, 99]
  mapValue := []
  nOrderPos := 3
  nEntryNo := 1
  ssExtra := []

/-- The same entry with a zero byte in its comment and without a position. -/
def cut : AccountingEntry := { acentry with strComment := [97, 0, 99], nOrderPos := -1 }

theorem acentry_roundTrips : EntryRoundTrips CLIENT_VERSION acentry := by
  have hlength : acentry.packedComment.length < 10 := by with_unfolding_all decide
  refine (entryRoundTrips_iff _ ?_).mpr ⟨by decide, by decide, by decide, ?_⟩
  · exact
      { nCreditDebit_fits := ⟨by decide, by decide⟩
        nTime_fits := ⟨by decide, by decide⟩
        nOrderPos_fits := ⟨by decide, by decide⟩
        nEntryNo_lt := by decide
        keys_ascend := by simp [acentry, Ascending]
        not_reserved := by simp [acentry]
        strAccount_lt := by decide
        strOtherAccount_lt := by decide
        packedComment_lt := by omega }
  · exact hlength.le.trans (by decide)

/-- The write cuts the comment in memory at its zero byte. -/
theorem cut_not_roundTrips : ¬ EntryRoundTrips CLIENT_VERSION cut := by
  rintro ⟨-, hafter⟩
  have hcomment := congrArg strComment hafter
  revert hcomment
  decide

end EntryOfOldWallet

/-! ## Flags of change outputs -/

namespace WalletTx

theorem changeText_eq (nOut : ℕ) (vfChange : List Bool) :
    WalletTx.changeText nOut vfChange =
      match (range (min vfChange.length nOut)).filter fun i => vfChange.getD i false with
      | [] => []
      | i :: rest => numeral i ++ rest.flatMap fun j => 44 :: numeral j := by
  have hjoin : ∀ (rest : List ℕ) (text : List UInt8), text ≠ [] →
      rest.foldl (fun text i => (if text = [] then [] else text ++ [44]) ++ numeral i) text =
        text ++ rest.flatMap fun j => 44 :: numeral j := by
    intro rest
    induction rest with
    | nil => simp
    | cons j rest ih =>
      intro text hne
      rw [foldl_cons, if_neg hne, ih _ (by simp)]
      simp
  unfold WalletTx.changeText
  cases (range (min vfChange.length nOut)).filter fun i => vfChange.getD i false with
  | nil => rfl
  | cons i rest => exact hjoin rest _ (numeral_ne_nil i)

theorem commaFields_numerals (i : ℕ) (rest : List ℕ) {fuel : ℕ} (hfuel : rest.length < fuel) :
    WalletTx.commaFields fuel (numeral i ++ rest.flatMap fun j => 44 :: numeral j) =
      (i :: rest).map numeral := by
  have hcomma : ∀ j, ∀ c ∈ numeral j, decide (c ≠ 44) = true := by
    intro j c hc
    have hdigit := numeral_isDigit hc
    rw [decide_eq_true_eq]
    rintro rfl
    exact absurd hdigit (by decide)
  induction rest generalizing i fuel with
  | nil =>
    obtain ⟨fuel, rfl⟩ := Nat.exists_eq_succ_of_ne_zero (Nat.ne_of_gt hfuel)
    have hnil : ∀ fuel, WalletTx.commaFields fuel [] = [] := by
      intro fuel
      cases fuel <;> rfl
    have hsplit := @takeWhile_dropWhile_append _ _ [] (hcomma i) (by simp)
    rw [append_nil] at hsplit
    rw [flatMap_nil, append_nil, WalletTx.commaFields, if_neg (numeral_ne_nil i),
      hsplit.1, hsplit.2, drop_nil, hnil]
    rfl
  | cons j rest ih =>
    obtain ⟨fuel, rfl⟩ := Nat.exists_eq_succ_of_ne_zero (Nat.ne_of_gt (Nat.zero_lt_of_lt hfuel))
    have hsplit := @takeWhile_dropWhile_append _ _
      ((j :: rest).flatMap fun j => 44 :: numeral j) (hcomma i) (by simp)
    have hne : numeral i ++ ((j :: rest).flatMap fun j => 44 :: numeral j) ≠ [] := by
      simp [numeral_ne_nil]
    rw [WalletTx.commaFields, if_neg hne, hsplit.1, hsplit.2, flatMap_cons, cons_append,
      drop_one, tail_cons, ih j (by simpa using hfuel)]
    rfl

theorem toUint32_atoi64_numeral {i : ℕ} (hi : i < 2 ^ 32) :
    WalletTx.toUint32 (atoi64 (numeral i)) = i := by
  have hprint : paddedNumeral 0 i = numeral i := by simp [paddedNumeral]
  have hatoi := (atoi64_digits i).1
  rw [hprint] at hatoi
  rw [WalletTx.toUint32]
  omega

theorem getElem?_foldl_set (indices : List ℕ) (flags : List Bool) (i : ℕ) :
    (indices.foldl (fun flags j => flags.set j true) flags)[i]? =
      flags[i]?.map fun f => f || decide (i ∈ indices) := by
  induction indices generalizing flags with
  | nil => simp
  | cons j indices ih =>
    rw [foldl_cons, ih]
    by_cases hij : j = i
    · subst hij
      by_cases hlt : j < flags.length
      · simp [hlt]
      · simp [hlt]
    · have hji : i ≠ j := fun h => hij h.symm
      simp [hij, hji]

theorem readChange_changeText {vfChange : List Bool} (hset : true ∈ vfChange)
    (hlength : vfChange.length < 2 ^ 32) :
    WalletTx.changeText vfChange.length vfChange ≠ [] ∧
      WalletTx.readChange vfChange.length (WalletTx.changeText vfChange.length vfChange) =
        vfChange := by
  have hindices : ∀ i, i ∈ (List.range (min vfChange.length vfChange.length)).filter
      (fun i => vfChange.getD i false) ↔ vfChange[i]? = some true := by
    intro i
    by_cases hi : i < vfChange.length
    · simp [hi]
    · simp [hi]
  rw [changeText_eq]
  generalize (List.range (min vfChange.length vfChange.length)).filter
    (fun i => vfChange.getD i false) = indices at hindices
  cases indices with
  | nil =>
    obtain ⟨i, hi⟩ := mem_iff_getElem?.mp hset
    exact absurd ((hindices i).mpr hi) not_mem_nil
  | cons i rest =>
    refine ⟨by simp [numeral_ne_nil], ?_⟩
    have hcount : rest.length ≤ (rest.flatMap fun j => 44 :: numeral j).length := by
      clear hindices
      induction rest with
      | nil => simp
      | cons j rest ih =>
        simp only [flatMap_cons, length_append, length_cons]
        omega
    have hpos := length_pos_iff.mpr (numeral_ne_nil i)
    have hfields := @commaFields_numerals i rest
      (numeral i ++ rest.flatMap fun j => 44 :: numeral j).length
      (by rw [length_append]; omega)
    rw [WalletTx.readChange, hfields, foldl_map]
    have hsame : ∀ flags : List Bool, (i :: rest).foldl (fun flags j =>
          flags.set (WalletTx.toUint32 (atoi64 (numeral j))) true) flags =
        (i :: rest).foldl (fun flags j => flags.set j true) flags := by
      intro flags
      refine foldl_ext _ _ _ fun flags j hj => ?_
      obtain ⟨hlt, -⟩ := List.getElem?_eq_some_iff.mp ((hindices j).mp hj)
      rw [toUint32_atoi64_numeral (hlt.trans hlength)]
    rw [hsame]
    apply ext_getElem?
    intro k
    rw [getElem?_foldl_set, getElem?_replicate]
    by_cases hk : k < vfChange.length
    · have hmem := hindices k
      rw [getElem?_eq_getElem hk] at hmem
      rw [if_pos hk]
      simp [hmem]
    · simp [hk]

/-! ## Records of transactions -/

theorem foldl_mapErase (keys : List String) (mapValue : MapValue) :
    keys.foldl (fun mapValue key => mapErase key mapValue) mapValue =
      mapValue.filter fun item => ∀ key ∈ keys, item.1 ≠ key.toUTF8.toList := by
  induction keys generalizing mapValue with
  | nil => simp
  | cons key keys ih =>
    rw [foldl_cons, ih, mapErase, List.filter_filter]
    simp [Bool.and_comm]

theorem reservedKey_eq_iff {key key' : String} (hkey : key ∈ WalletTx.reservedKeys)
    (hkey' : key' ∈ WalletTx.reservedKeys) :
    key.toUTF8.toList = key'.toUTF8.toList ↔ key = key' := by
  have hnodup : (WalletTx.reservedKeys.map fun key => key.toUTF8.toList).Nodup := by
    with_unfolding_all decide
  exact ⟨fun h => inj_on_of_nodup_map hnodup hkey hkey' h, fun h => by rw [h]⟩

/-- A transaction as the wallet can hold it: its parts are no larger than what is read back, the
keys of its map ascend and are not reserved ones, and its change flags are absent or one for each
output. -/
structure InMemory (wtx : WalletTx) : Prop where
  mtx_fits : CMerkleTx.codec.Fits wtx.toCMerkleTx
  vtxPrev_fits : (vectorCodec 128 (by decide) CMerkleTx.codec).Fits wtx.vtxPrev
  vOrderForm_fits :
    (vectorCodec 64 pairBlock_pos (stringCodec.pair stringCodec)).Fits wtx.vOrderForm
  map_fits : ((mapCodec stringCodec stringCodec).write wtx.storedMap).length ≤ MAX_SIZE
  fTimeReceivedIsTxTime_fits : uintCodec32.Fits wtx.fTimeReceivedIsTxTime
  nTimeReceived_fits : uintCodec32.Fits wtx.nTimeReceived
  nTimeSmart_fits : wtx.nTimeSmart < 2 ^ 32
  fFromMe_fits : charCodec.Fits wtx.fFromMe
  nOrderPos_fits : int64Codec.Fits wtx.nOrderPos
  keys_ascend : Ascending wtx.mapValue
  not_reserved : ∀ key ∈ WalletTx.reservedKeys, key.toUTF8.toList ∉ wtx.mapValue.map Prod.fst
  change_flags : wtx.vfChange = [] ∨ wtx.vfChange.length = wtx.vout.length

variable {wtx : WalletTx}

theorem Ascending_storedMap (h : Ascending wtx.mapValue) :
    Ascending wtx.storedMap := by
  have hfront := Ascending_WriteOrderPos wtx.nOrderPos
    ((h.mapSet "fromaccount" wtx.strFromAccount).mapSet "spent"
      (wtx.vfSpent.map fun f => if f then 49 else 48))
  unfold WalletTx.storedMap
  dsimp only
  split_ifs <;> simp only [hfront, Ascending.mapSet]

theorem filter_storedMap {p : List UInt8 × List UInt8 → Bool}
    (hp : ∀ key ∈ WalletTx.reservedKeys, ∀ value, p (key.toUTF8.toList, value) = false) :
    wtx.storedMap.filter p = wtx.mapValue.filter p := by
  have hpos : ∀ mapValue : MapValue,
      (WriteOrderPos wtx.nOrderPos mapValue).filter p = mapValue.filter p := by
    intro mapValue
    unfold WriteOrderPos
    split
    · rfl
    · exact filter_mapSet (hp "n" (by decide)) _ _
  have hfront : (WriteOrderPos wtx.nOrderPos (mapSet "spent"
      (wtx.vfSpent.map fun f => if f then 49 else 48)
        (mapSet "fromaccount" wtx.strFromAccount wtx.mapValue))).filter p =
      wtx.mapValue.filter p := by
    rw [hpos, filter_mapSet (hp "spent" (by decide)), filter_mapSet (hp "fromaccount" (by decide))]
  unfold WalletTx.storedMap
  dsimp only
  split_ifs <;>
    simp only [filter_mapSet (hp "change" (by decide)), filter_mapSet (hp "timesmart" (by decide)),
      hfront]

/-- What the reserved keys hold while the transaction is written. -/
theorem InMemory.mapValueFind_storedMap (h : InMemory wtx) :
    mapValueFind wtx.storedMap "fromaccount" = some wtx.strFromAccount ∧
    mapValueFind wtx.storedMap "spent" = some (wtx.vfSpent.map fun f => if f then 49 else 48) ∧
    ReadOrderPos wtx.storedMap = wtx.nOrderPos ∧
    mapValueFind wtx.storedMap "timesmart" =
      (if wtx.nTimeSmart ≠ 0 then some (numeral wtx.nTimeSmart) else none) ∧
    mapValueFind wtx.storedMap "change" =
      (if WalletTx.changeText wtx.vout.length wtx.vfChange ≠ [] then
        some (WalletTx.changeText wtx.vout.length wtx.vfChange) else none) := by
  have hset : ∀ key ∈ WalletTx.reservedKeys, ∀ key' ∈ WalletTx.reservedKeys,
      ∀ (value : List UInt8) (mapValue : MapValue), mapValueFind (mapSet key value mapValue) key' =
        if key' = key then some value else mapValueFind mapValue key' := by
    intro key hkey key' hkey' value mapValue
    rw [mapValueFind_mapSet]
    simp only [reservedKey_eq_iff hkey' hkey]
  have hnone : ∀ key ∈ WalletTx.reservedKeys, mapValueFind wtx.mapValue key = none :=
    fun key hkey => mapValueFind_eq_none (h.not_reserved key hkey)
  have hpos : ∀ key ∈ WalletTx.reservedKeys, key ≠ "n" → ∀ mapValue : MapValue,
      mapValueFind (WriteOrderPos wtx.nOrderPos mapValue) key = mapValueFind mapValue key := by
    intro key hkey hne mapValue
    unfold WriteOrderPos
    split
    · rfl
    · rw [hset "n" (by decide) key hkey, if_neg hne]
  generalize hfirst : WriteOrderPos wtx.nOrderPos (mapSet "spent"
    (wtx.vfSpent.map fun f => if f then 49 else 48)
      (mapSet "fromaccount" wtx.strFromAccount wtx.mapValue)) = first
  have hlate : ∀ key ∈ WalletTx.reservedKeys, key ≠ "fromaccount" → key ≠ "spent" → key ≠ "n" →
      mapValueFind first key = none := by
    intro key hkey haccount hspent hn
    rw [← hfirst, hpos key hkey hn, hset "spent" (by decide) key hkey, if_neg hspent,
      hset "fromaccount" (by decide) key hkey, if_neg haccount, hnone key hkey]
  -- the last two keys are set or not; neither is one of the first three
  have hearly : ∀ key ∈ WalletTx.reservedKeys, key ≠ "timesmart" → key ≠ "change" →
      mapValueFind wtx.storedMap key = mapValueFind first key := by
    intro key hkey htime hchange
    unfold WalletTx.storedMap
    simp only [hfirst]
    split_ifs <;>
      simp only [hset "change" (by decide) key hkey, hset "timesmart" (by decide) key hkey,
        if_neg htime, if_neg hchange]
  refine ⟨?_, ?_, ?_, ?_, ?_⟩
  · rw [hearly _ (by decide) (by decide) (by decide), ← hfirst, hpos _ (by decide) (by decide),
      hset "spent" (by decide) _ (by decide), if_neg (by decide),
      hset "fromaccount" (by decide) _ (by decide), if_pos rfl]
  · rw [hearly _ (by decide) (by decide) (by decide), ← hfirst, hpos _ (by decide) (by decide),
      hset "spent" (by decide) _ (by decide), if_pos rfl]
  · rw [ReadOrderPos, hearly _ (by decide) (by decide) (by decide), ← hfirst]
    refine ReadOrderPos_WriteOrderPos h.nOrderPos_fits ?_
    rw [hset "spent" (by decide) _ (by decide), if_neg (by decide),
      hset "fromaccount" (by decide) _ (by decide), if_neg (by decide), hnone _ (by decide)]
  · have htime := hlate "timesmart" (by decide) (by decide) (by decide) (by decide)
    unfold WalletTx.storedMap
    simp only [hfirst]
    split_ifs <;>
      simp [hset "change" (by decide) "timesmart" (by decide),
        hset "timesmart" (by decide) "timesmart" (by decide), htime]
  · have hchange := hlate "change" (by decide) (by decide) (by decide) (by decide)
    unfold WalletTx.storedMap
    simp only [hfirst]
    split_ifs <;>
      simp [hset "change" (by decide) "change" (by decide),
        hset "timesmart" (by decide) "change" (by decide), hchange]

/-- The change flags that come back: the same ones if one is set, and none otherwise. -/
theorem InMemory.readChange (h : InMemory wtx) : (WalletTx.ofRecord wtx.toRecord).vfChange =
      if true ∈ wtx.vfChange then wtx.vfChange else [] := by
  obtain ⟨-, -, -, -, hfind⟩ := h.mapValueFind_storedMap
  have hread : (WalletTx.ofRecord wtx.toRecord).vfChange =
      ((mapValueFind wtx.storedMap "change").map (WalletTx.readChange wtx.vout.length)).getD [] :=
    rfl
  rw [hread, hfind]
  by_cases hset : true ∈ wtx.vfChange
  · have hne : wtx.vfChange ≠ [] := ne_nil_of_mem hset
    have hlength : wtx.vout.length = wtx.vfChange.length :=
      (h.change_flags.resolve_left hne).symm
    have hsize : wtx.vout.length ≤ MAX_SIZE := h.mtx_fits.2.1.2.2.2.1.1
    obtain ⟨htext, hflags⟩ := readChange_changeText hset (by
      rw [← hlength]
      exact lt_of_le_of_lt hsize (by decide))
    rw [if_pos hset, hlength, if_pos htext, map_some, getD_some, hflags]
  · have htext : WalletTx.changeText wtx.vout.length wtx.vfChange = [] := by
      rw [changeText_eq, filter_eq_nil_iff.mpr]
      intro i _ hi
      cases hflag : wtx.vfChange[i]? with
      | none => simp [hflag] at hi
      | some f =>
        have hf : f = true := by simpa [hflag] using hi
        exact hset (mem_of_getElem? (hf ▸ hflag))
    rw [if_neg hset, htext]
    rfl

theorem InMemory.ofRecord_toRecord (h : InMemory wtx) :
    { WalletTx.ofRecord wtx.toRecord with vfChange := wtx.vfChange } = wtx := by
  obtain ⟨haccount, hspent, hpos, htime, -⟩ := h.mapValueFind_storedMap
  have hmap : WalletTx.reservedKeys.foldl (fun mapValue key => mapErase key mapValue)
      wtx.storedMap = wtx.mapValue := by
    rw [foldl_mapErase, filter_storedMap, filter_eq_self]
    · intro item hitem
      rw [decide_eq_true_eq]
      intro key hkey heq
      exact h.not_reserved key hkey (heq ▸ List.mem_map_of_mem hitem)
    · intro key hkey value
      rw [decide_eq_false_iff_not]
      exact fun hall => hall key hkey rfl
  have hflags : (wtx.vfSpent.map fun f => if f then (49 : UInt8) else 48).map
      (fun c => decide (c ≠ 48)) = wtx.vfSpent := by
    rw [List.map_map]
    refine map_id'' (fun f => ?_) _
    cases f <;> rfl
  have hsmart : ((if wtx.nTimeSmart ≠ 0 then some (numeral wtx.nTimeSmart) else none).map
      fun s => WalletTx.toUint32 (atoi64 s)).getD 0 = wtx.nTimeSmart := by
    by_cases hzero : wtx.nTimeSmart = 0
    · simp [hzero]
    · simp [hzero, toUint32_atoi64_numeral h.nTimeSmart_fits]
  unfold WalletTx.ofRecord WalletTx.toRecord
  simp only [haccount, hspent, hpos, htime, hmap, hflags, hsmart, getD_some]

/-- Reading what was written gives the transaction, which answers `IsChange` as before. -/
def RoundTrips (walletIsChange : CTxOut → Bool) (wtx : WalletTx) : Prop :=
  ∃ record, codec.decoder.eval (codec.write wtx.toRecord) =
      some (record, []) ∧
    { WalletTx.ofRecord record with vfChange := wtx.vfChange } = wtx ∧
    ∀ nIndex < wtx.vout.length, (WalletTx.ofRecord record).IsChange walletIsChange nIndex =
      wtx.IsChange walletIsChange nIndex

theorem InMemory.eval_write (h : InMemory wtx) :
    codec.decoder.eval (codec.write wtx.toRecord) =
      some (wtx.toRecord, []) := by
  have hchar : charCodec.Fits wtx.toRecord.fSpent := by
    have hcases : wtx.toRecord.fSpent = 1 ∨ wtx.toRecord.fSpent = 0 := ite_eq_or_eq _ _ _
    rcases hcases with hspent | hspent
    · rw [hspent]
      exact ⟨by decide, by decide⟩
    · rw [hspent]
      exact ⟨by decide, by decide⟩
  have hfits : codec.Fits wtx.toRecord :=
    ⟨rfl, h.mtx_fits, h.vtxPrev_fits, (Ascending_storedMap h.keys_ascend).fits h.map_fits,
      h.vOrderForm_fits, h.fTimeReceivedIsTxTime_fits, h.nTimeReceived_fits, h.fFromMe_fits, hchar⟩
  have hread := Codec.eval_write_append _ hfits []
  rwa [append_nil] at hread

/-- A transaction survives a restart unless it has change flags of which none is set and the
wallet takes one of its outputs for change by its address. -/
theorem transactionRoundTrips_iff (walletIsChange : CTxOut → Bool) {wtx : WalletTx}
    (hok : InMemory wtx) :
    RoundTrips walletIsChange wtx ↔ wtx.vfChange = [] ∨ true ∈ wtx.vfChange ∨
      ∀ txout ∈ wtx.vout, walletIsChange txout = false := by
  have hread := hok.eval_write
  have hchange := hok.readChange
  have hvout : (WalletTx.ofRecord wtx.toRecord).vout = wtx.vout := rfl
  have hIsChange : (∀ nIndex < wtx.vout.length,
      (WalletTx.ofRecord wtx.toRecord).IsChange walletIsChange nIndex =
        wtx.IsChange walletIsChange nIndex) ↔ wtx.vfChange = [] ∨ true ∈ wtx.vfChange ∨
      ∀ txout ∈ wtx.vout, walletIsChange txout = false := by
    unfold WalletTx.IsChange
    rw [hchange, hvout]
    by_cases hset : true ∈ wtx.vfChange
    · simp [hset]
    · by_cases hempty : wtx.vfChange = []
      · simp [hempty]
      · have hflag : ∀ nIndex, wtx.vfChange.getD nIndex false = false := by
          intro nIndex
          rw [getD_eq_getElem?_getD]
          cases hget : wtx.vfChange[nIndex]? with
          | none => rfl
          | some f =>
            cases f with
            | false => rfl
            | true => exact absurd (mem_of_getElem? hget) hset
        simp only [hset, hempty, if_false, ne_eq, not_true_eq_false, not_false_eq_true, if_true,
          hflag, false_or, forall_mem_iff_getElem]
        refine forall₂_congr fun nIndex hlt => ?_
        rw [getElem?_eq_getElem hlt, any_some]
  rw [← hIsChange]
  constructor
  · rintro ⟨record, heval, -, hsame⟩
    rw [hread, some.injEq, Prod.mk.injEq] at heval
    rwa [heval.1]
  · exact fun hsame => ⟨_, hread, hok.ofRecord_toRecord, hsame⟩

end WalletTx

open WalletTx

namespace PaymentToSelf

/-- A transaction without inputs that pays one output. -/
def wtx : WalletTx where
  nVersion := 1
  vin := []
  vout := [⟨5, []⟩]
  nLockTime := 0
  hashBlock := 0
  vMerkleBranch := []
  nIndex := -1
  vtxPrev := []
  mapValue := []
  vOrderForm := []
  fTimeReceivedIsTxTime := 0
  nTimeReceived := 9
  nTimeSmart := 8
  fFromMe := 1
  strFromAccount := [97]
  vfSpent := [true]
  vfChange := [true]
  nOrderPos := 3

/-- The same transaction without change, as `CreateTransaction` marks it. -/
def withoutChange : WalletTx := { wtx with vfChange := [false] }

theorem fits_uint32 {n : ℕ} (h : n < 256 ^ 4) : uintCodec32.Fits n := h

theorem mtx_fits : CMerkleTx.codec.Fits wtx.toCMerkleTx := by
  have hvout : (vectorCodec 32 (by decide) CTxOut.codec).Fits wtx.vout := by
    have hcount : 1 ≤ MAX_SIZE := by decide
    refine ⟨hcount, ?_⟩
    intro txout htxout
    rw [mem_singleton.mp htxout]
    exact ⟨rfl, ⟨by decide, by decide⟩, Nat.zero_le _⟩
  exact ⟨rfl, ⟨rfl, ⟨by decide, by decide⟩, ⟨Nat.zero_le _, by simp [wtx]⟩, hvout,
    fits_uint32 (by decide)⟩, (by decide : 0 < 256 ^ 32), ⟨Nat.zero_le _, by simp [wtx]⟩,
    ⟨by decide, by decide⟩⟩

theorem inMemory (f : Bool) : InMemory { wtx with vfChange := [f] } := by
  have hmap : ((mapCodec stringCodec stringCodec).write
      (storedMap { wtx with vfChange := [f] })).length < 100 := by
    revert f
    with_unfolding_all decide
  cases f <;>
  exact
    { mtx_fits := mtx_fits
      vtxPrev_fits := ⟨Nat.zero_le _, by simp [wtx]⟩
      vOrderForm_fits := ⟨Nat.zero_le _, by simp [wtx]⟩
      map_fits := hmap.le.trans (by decide)
      fTimeReceivedIsTxTime_fits := fits_uint32 (by decide)
      nTimeReceived_fits := fits_uint32 (by decide)
      nTimeSmart_fits := by decide
      fFromMe_fits := ⟨by decide, by decide⟩
      nOrderPos_fits := ⟨by decide, by decide⟩
      keys_ascend := by simp [wtx, Ascending]
      not_reserved := by simp [wtx]
      change_flags := Or.inr rfl }

theorem wtx_roundTrips : WalletTx.RoundTrips (fun _ => true) wtx :=
  (transactionRoundTrips_iff _ (inMemory true)).mpr (Or.inr (Or.inl (by decide)))

/-- After a restart the payment counts as change. -/
theorem withoutChange_not_roundTrips : ¬ WalletTx.RoundTrips (fun _ => true) withoutChange := by
  have hok : InMemory withoutChange := inMemory false
  rintro ⟨record, hread, -, hsame⟩
  rw [hok.eval_write, some.injEq, Prod.mk.injEq] at hread
  have hflags := hok.readChange
  have hfirst := hsame 0 (by decide)
  rw [← hread.1] at hfirst
  rw [IsChange, hflags] at hfirst
  revert hfirst
  decide

end PaymentToSelf

end Phoenixcoin.Analysis
