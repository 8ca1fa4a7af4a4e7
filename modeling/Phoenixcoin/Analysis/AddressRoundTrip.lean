import Phoenixcoin.Analysis.AddressFiles
import Phoenixcoin.Analysis.AddressRuns

/-!
# Writing the address tables and reading them back

A state that passes the check comes back with new ids, unless a tried bucket gets more entries
than it has room for.
-/

set_option autoImplicit false

namespace Phoenixcoin.Analysis

open Lib Program Program.AddrTables List Option Decoder CAddrInfo Finmap

/-! ## The bytes -/

/-- What the types of the fields hold. -/
structure InfoFits (info : CAddrInfo) : Prop where
  ip : info.ip.length = 16
  port : info.port < 2 ^ 16
  nServices : info.nServices < 2 ^ 64
  nTime : info.nTime < 2 ^ 32
  source : info.source.length = 16
  nLastSuccess : -2 ^ 63 ≤ info.nLastSuccess ∧ info.nLastSuccess < 2 ^ 63
  nAttempts : -2 ^ 31 ≤ info.nAttempts ∧ info.nAttempts < 2 ^ 31

/-- The part of an entry that the file holds. -/
def stored (info : CAddrInfo) : CAddrInfo :=
  { ofAddress info.toCAddress info.source with
    nLastSuccess := info.nLastSuccess
    nAttempts := info.nAttempts }

theorem fits_stored {info : CAddrInfo} (h : InfoFits info) :
    codec.Fits (stored info) := by
  have hservice : CService.codec.Fits info.toCService := ⟨rfl, h.ip, h.port⟩
  have haddress : CAddress.codec.Fits info.toCAddress := ⟨rfl, h.nTime, h.nServices, hservice⟩
  refine ⟨rfl, haddress, h.source, ?_, ?_⟩
  · have hrange := h.nLastSuccess
    show -256 ^ 8 ≤ 2 * info.nLastSuccess ∧ 2 * info.nLastSuccess < (256 : ℤ) ^ 8
    omega
  · have hrange := h.nAttempts
    show -256 ^ 4 ≤ 2 * info.nAttempts ∧ 2 * info.nAttempts < (256 : ℤ) ^ 4
    omega

theorem eval_int {n : ℤ} (h : -2 ^ 31 ≤ n ∧ n < 2 ^ 31) (rest : List UInt8) :
    intCodec32.decoder.eval (intCodec32.write n ++ rest) = some (n, rest) := by
  apply Codec.eval_write_append
  show -256 ^ 4 ≤ 2 * n ∧ 2 * n < (256 : ℤ) ^ 4
  omega

theorem eval_infos {infos : List CAddrInfo} (h : ∀ info ∈ infos, InfoFits info)
    (rest : List UInt8) :
    (codec.decoder.many infos.length).eval
        ((infos.map codec.write).flatten ++ rest) = some (infos.map stored, rest) := by
  have hread : ∀ info ∈ infos.map stored, ∀ rest, codec.decoder.eval
      (codec.write info ++ rest) = some (info, rest) := by
    intro info hinfo
    obtain ⟨x, hx, rfl⟩ := List.mem_map.mp hinfo
    exact codec.eval_write_append (fits_stored (h x hx))
  have hmany := eval_many_of_forall hread rest
  rw [length_map, List.map_map] at hmany
  exact hmany

/-- The indices of a bucket are read back. -/
theorem eval_readIndices {vNew : List ℤ} (hlength : (vNew.length : ℤ) < 2 ^ 31)
    (h : ∀ n ∈ vNew, -2 ^ 31 ≤ n ∧ n < 2 ^ 31) (rest : List UInt8) :
    readIndices.eval (writeIndices vNew ++ rest) = some (vNew, rest) := by
  rw [readIndices, writeIndices, eval_bind_eq_some]
  refine ⟨_, _, eval_int (by omega) _, ?_⟩
  exact eval_many_of_forall (fun n hn => eval_int (h n hn)) rest

/-- A file that can be written as it is. -/
structure FileFits (file : AddrFile) : Prop where
  nKey : file.nKey.length ≤ MAX_SIZE
  nNew : file.nNew = file.vNewInfo.length
  nNew_lt : file.nNew < 2 ^ 31
  nTried : file.nTried = file.vTriedInfo.length
  nTried_lt : file.nTried < 2 ^ 31
  nUBuckets : file.nUBuckets = file.vBuckets.length
  nUBuckets_lt : file.nUBuckets < 2 ^ 31
  infos : ∀ info ∈ file.vNewInfo ++ file.vTriedInfo, InfoFits info
  sizes : ∀ vNew ∈ file.vBuckets, (vNew.length : ℤ) < 2 ^ 31
  indices : ∀ vNew ∈ file.vBuckets, ∀ n ∈ vNew, -2 ^ 31 ≤ n ∧ n < 2 ^ 31

def storedFile (file : AddrFile) : AddrFile :=
  { file with
    vNewInfo := file.vNewInfo.map stored
    vTriedInfo := file.vTriedInfo.map stored }

/-- A file is read back. -/
theorem eval_writeAddrFile {file : AddrFile} (h : FileFits file) :
    readAddrFile.eval (writeAddrFile file) = some (storedFile file, []) := by
  have hnNew := h.nNew
  have hnNew_lt := h.nNew_lt
  have hnTried := h.nTried
  have hnTried_lt := h.nTried_lt
  have hnUBuckets := h.nUBuckets
  have hnUBuckets_lt := h.nUBuckets_lt
  have hnews := eval_infos fun info hinfo => h.infos info (mem_append_left _ hinfo)
  have htrieds := eval_infos fun info hinfo => h.infos info (mem_append_right _ hinfo)
  have hbuckets := eval_many_of_forall (fun vNew hvNew =>
    eval_readIndices (h.sizes vNew hvNew) (h.indices vNew hvNew)) []
  have hnNew' : file.nNew.toNat = file.vNewInfo.length := by omega
  have hnTried' : file.nTried.toNat = file.vTriedInfo.length := by omega
  have hnUBuckets' : file.nUBuckets.toNat = file.vBuckets.length := by omega
  rw [readAddrFile, writeAddrFile, eval_bind_eq_some]
  refine ⟨_, _, ucharCodec.eval_write_append (by show 0 < 256 ^ 1; decide) _, ?_⟩
  rw [eval_bind_eq_some]
  refine ⟨_, _, ucharVector.eval_write_append h.nKey _, ?_⟩
  rw [eval_bind_eq_some]
  refine ⟨_, _, eval_int (by omega) _, ?_⟩
  rw [eval_bind_eq_some]
  refine ⟨_, _, eval_int (by omega) _, ?_⟩
  rw [eval_bind_eq_some]
  refine ⟨_, _, eval_int (by omega) _, ?_⟩
  rw [eval_bind_eq_some, hnNew']
  refine ⟨_, _, hnews _, ?_⟩
  rw [eval_bind_eq_some, hnTried']
  refine ⟨_, _, htrieds _, ?_⟩
  rw [eval_map_eq_some, hnUBuckets']
  rw [append_nil] at hbuckets
  exact ⟨_, hbuckets, rfl⟩

/-! ## What is written -/

def referred (it : ℤ × CAddrInfo) : Bool := it.2.nRefCount ≠ 0

/-- As many entries as the counter says are written, and `mapUnkIds` has their places. -/
theorem writeNew_eq {nNew nIds : ℤ} {mapUnkIds : Table ℤ ℤ} {its : List (ℤ × CAddrInfo)}
    (hnodup : (its.map Prod.fst).Nodup) (hcount : nIds + (its.filter referred).length = nNew) :
    (writeNew nNew its nIds mapUnkIds).1 = (its.filter referred).map Prod.snd ∧
      (∀ n, n ∉ its.map Prod.fst →
        (writeNew nNew its nIds mapUnkIds).2.lookup n = mapUnkIds.lookup n) ∧
      ∀ n ∈ (its.filter referred).map Prod.fst, (writeNew nNew its nIds mapUnkIds).2.lookup n =
        some (nIds + ((its.filter referred).map Prod.fst).idxOf n) := by
  induction its generalizing nIds mapUnkIds with
  | nil => exact ⟨rfl, fun _ _ => rfl, fun n hn => absurd hn not_mem_nil⟩
  | cons it its ih =>
    obtain ⟨nId, info⟩ := it
    rw [map_cons, nodup_cons] at hnodup
    unfold writeNew
    by_cases hdone : nIds = nNew
    · have hnil : ((nId, info) :: its).filter referred = [] :=
        length_eq_zero_iff.mp (by omega)
      rw [if_pos hdone, hnil]
      exact ⟨rfl, fun _ _ => rfl, fun n hn => absurd hn not_mem_nil⟩
    rw [if_neg hdone]
    by_cases href : info.nRefCount ≠ 0
    · have hfilter : ((nId, info) :: its).filter referred = (nId, info) :: its.filter referred :=
        filter_cons_of_pos (decide_eq_true href)
      rw [hfilter, length_cons] at hcount
      obtain ⟨hinfos, hother, hplaces⟩ := @ih (nIds + 1)
        (mapUnkIds.insert nId nIds) hnodup.2 (by omega)
      rw [if_pos href, hfilter]
      rw [map_cons, map_cons, map_cons]
      refine ⟨congrArg (info :: ·) hinfos, fun n hn => ?_, fun n hn => ?_⟩
      · rw [mem_cons, not_or] at hn
        rw [hother n hn.2, Table.lookup_insert_ite, if_neg hn.1]
      · by_cases hsame : n = nId
        · rw [hsame, idxOf_cons_self, hother nId hnodup.1, Table.lookup_insert_ite,
            if_pos rfl, Nat.cast_zero, Int.add_zero]
        · rw [idxOf_cons_ne _ (Ne.symm hsame), hplaces n ((mem_cons.mp hn).resolve_left hsame)]
          congr 1
          omega
    · have hfilter : ((nId, info) :: its).filter referred = its.filter referred :=
        filter_cons_of_neg (by simpa [referred] using href)
      rw [hfilter] at hcount
      obtain ⟨hinfos, hother, hplaces⟩ := @ih nIds (mapUnkIds.insert nId nIds) hnodup.2 hcount
      rw [if_neg href, hfilter, map_cons]
      refine ⟨hinfos, fun n hn => ?_, hplaces⟩
      rw [mem_cons, not_or] at hn
      rw [hother n hn.2, Table.lookup_insert_ite, if_neg hn.1]

theorem writeTried_eq {nTried nIds : ℤ} {its : List (ℤ × CAddrInfo)}
    (hcount : nIds + (its.filter fun it => it.2.fInTried).length = nTried) :
    writeTried nTried its nIds = (its.filter fun it => it.2.fInTried).map Prod.snd := by
  induction its generalizing nIds with
  | nil => rfl
  | cons it its ih =>
    obtain ⟨nId, info⟩ := it
    unfold writeTried
    by_cases hdone : nIds = nTried
    · have hnil : ((nId, info) :: its).filter (fun it => it.2.fInTried) = [] :=
        length_eq_zero_iff.mp (by omega)
      rw [if_pos hdone, hnil]
      rfl
    rw [if_neg hdone]
    by_cases htried : info.fInTried = true
    · have hfilter : ((nId, info) :: its).filter (fun it => it.2.fInTried) =
          (nId, info) :: its.filter fun it => it.2.fInTried := filter_cons_of_pos htried
      rw [hfilter, length_cons] at hcount
      rw [if_pos htried, hfilter, map_cons, ih]
      omega
    · have hfilter : ((nId, info) :: its).filter (fun it => it.2.fInTried) =
          its.filter fun it => it.2.fInTried := filter_cons_of_neg htried
      rw [hfilter] at hcount
      rw [if_neg htried, hfilter, ih hcount]

/-! ## What is read -/

theorem references_eq (b : ℕ) (buckets : List (List ℤ)) :
    references b buckets = (buckets.zipIdx b).flatMap fun bucket =>
      bucket.1.map fun n => (Fin.ofNat ADDRMAN_NEW_BUCKET_COUNT bucket.2, n) := by
  induction buckets generalizing b with
  | nil => rfl
  | cons indices buckets ih =>
    rw [references, ih, zipIdx_cons, flatMap_cons]

theorem references_map (g : NewBucket → List ℤ) :
    references 0 ((finRange ADDRMAN_NEW_BUCKET_COUNT).map g) =
      (finRange ADDRMAN_NEW_BUCKET_COUNT).flatMap fun b => (g b).map fun n => (b, n) := by
  have hzip : ((finRange ADDRMAN_NEW_BUCKET_COUNT).map g).zipIdx =
      (finRange ADDRMAN_NEW_BUCKET_COUNT).map fun b => (g b, b.val) := by
    apply ext_getElem
    · simp
    · simp
  rw [references_eq, hzip, flatMap_map]
  have hval (b : NewBucket) : Fin.ofNat ADDRMAN_NEW_BUCKET_COUNT b.val = b :=
    Fin.ext (Nat.mod_eq_of_lt b.isLt)
  simp

/-- With different indices in each bucket, the buckets that refer to `n` come in order. -/
theorem bucketsOf_map {g : NewBucket → List ℤ} (hnodup : ∀ b, (g b).Nodup) (n : ℤ) :
    bucketsOf (references 0 ((List.finRange ADDRMAN_NEW_BUCKET_COUNT).map g)) n =
      (List.finRange ADDRMAN_NEW_BUCKET_COUNT).filter fun b => n ∈ g b := by
  have hbucket (b : NewBucket) :
      (((g b).map fun n => (b, n)).filter fun reference => reference.2 = n).map Prod.fst =
        if n ∈ g b then [b] else [] := by
    rw [List.filter_map]
    have hsame : (g b).filter ((fun reference : NewBucket × ℤ => decide (reference.2 = n)) ∘
        fun n => (b, n)) = if n ∈ g b then [n] else [] := by
      have hcomp : ((fun reference : NewBucket × ℤ => decide (reference.2 = n)) ∘ fun n => (b, n)) =
          fun m => m == n := by
        funext m
        exact (beq_eq_decide m n).symm
      rw [hcomp, filter_beq]
      by_cases hmem : n ∈ g b
      · rw [if_pos hmem, count_eq_one_of_mem (hnodup b) hmem]
        rfl
      · rw [if_neg hmem, count_eq_zero_of_not_mem hmem]
        rfl
    rw [hsame]
    split <;> rfl
  rw [bucketsOf, references_map, filter_flatMap, map_flatMap]
  simp only [hbucket]
  generalize List.finRange ADDRMAN_NEW_BUCKET_COUNT = buckets
  induction buckets with
  | nil => rfl
  | cons b buckets ih =>
    rw [flatMap_cons, ih]
    by_cases hmem : n ∈ g b
    · rw [if_pos hmem, filter_cons, if_pos (decide_eq_true hmem), singleton_append]
    · rw [if_neg hmem, filter_cons, if_neg (by simpa using hmem), nil_append]

theorem keptTried_eq_iff (env : AddrEnv) (infos : List CAddrInfo) :
    keptTried env infos = infos ↔
      ∀ b, (infos.countP fun info => env.getTriedBucket info = b) ≤ ADDRMAN_TRIED_BUCKET_SIZE := by
  have hroom : ∀ infos kept : List CAddrInfo,
      (∀ b, (kept.countP fun info => env.getTriedBucket info = b) ≤ ADDRMAN_TRIED_BUCKET_SIZE) →
        ∀ b, ((infos.foldl (keepTried env) kept).countP fun info => env.getTriedBucket info = b) ≤
          ADDRMAN_TRIED_BUCKET_SIZE := by
    intro infos
    induction infos with
    | nil => exact fun kept h => h
    | cons info infos ih =>
      intro kept h
      refine ih (keepTried env kept info) fun b => ?_
      unfold keepTried
      split
      · next hlt =>
        rw [countP_append, countP_singleton]
        split
        · next hb =>
          rw [decide_eq_true_iff] at hb
          rw [← hb]
          exact hlt
        · exact h b
      · exact h b
  have hall : ∀ infos kept : List CAddrInfo,
      (∀ b, ((kept ++ infos).countP fun info => env.getTriedBucket info = b) ≤
        ADDRMAN_TRIED_BUCKET_SIZE) → infos.foldl (keepTried env) kept = kept ++ infos := by
    intro infos
    induction infos with
    | nil => exact fun kept _ => (append_nil kept).symm
    | cons info infos ih =>
      intro kept h
      have hlt : (kept.countP fun other => env.getTriedBucket other = env.getTriedBucket info) <
          ADDRMAN_TRIED_BUCKET_SIZE := by
        have hinfo := h (env.getTriedBucket info)
        rw [countP_append, countP_cons, if_pos (decide_eq_true rfl)] at hinfo
        omega
      have hkeep : keepTried env kept info = kept ++ [info] := if_pos hlt
      have hassoc : kept ++ [info] ++ infos = kept ++ info :: infos := by
        rw [append_assoc, singleton_append]
      rw [foldl_cons, hkeep, ih (kept ++ [info]) (hassoc ▸ h), hassoc]
  constructor
  · intro h b
    have hle := hroom infos [] (fun _ => Nat.zero_le _) b
    unfold keptTried at h
    rwa [h] at hle
  · intro h
    exact hall infos [] h

section Consistent

variable {s : AddrTables}

def idsWith (fInTried : Bool) (s : AddrTables) : List ℤ := (entriesWith fInTried s).map Prod.fst

variable {n : ℤ} {b : NewBucket} {info : CAddrInfo}

theorem mem_idsWith {fInTried : Bool} :
    n ∈ idsWith fInTried s ↔ ∃ info, s.mapInfo.lookup n = some info ∧ info.fInTried = fInTried := by
  rw [idsWith, List.mem_map]
  constructor
  · rintro ⟨it, hit, rfl⟩
    exact ⟨it.2, mem_entriesWith.mp hit⟩
  · rintro ⟨info, hinfo⟩
    exact ⟨(n, info), mem_entriesWith.mpr hinfo, rfl⟩

theorem getElem?_idxOf {fInTried : Bool} {n : ℤ} {info : CAddrInfo}
    (hlookup : s.mapInfo.lookup n = some info) (htried : info.fInTried = fInTried) :
    ((entriesWith fInTried s).map Prod.snd)[(idsWith fInTried s).idxOf n]? = some info := by
  have hmem : n ∈ idsWith fInTried s := mem_idsWith.mpr ⟨info, hlookup, htried⟩
  have hget := List.getElem?_idxOf hmem
  rw [idsWith, getElem?_map] at hget ⊢
  obtain ⟨it, hit, hid⟩ := map_eq_some_iff.mp hget
  obtain ⟨hlookup', -⟩ := mem_entriesWith.mp (mem_of_getElem? hit)
  rw [hid, hlookup] at hlookup'
  rw [hit]
  exact hlookup'.symm

def renumber (s : AddrTables) (n : ℤ) : ℤ :=
  if n ∈ idsWith false s then (idsWith false s).idxOf n
  else (idsWith false s).length + (idsWith true s).idxOf n

/-- What a bucket refers to is a new entry. -/
theorem TablesChecked.mem_new (h : TablesChecked s) (hmem : n ∈ s.vvNew b) :
    n ∈ idsWith false s := by
  have hcount := h.newIds n
  have hpos : 0 < s.newIds.count n := by
    rw [count_newIds_tables]
    exact Finset.card_pos.mpr ⟨b, Finset.mem_filter.mpr ⟨Finset.mem_univ b, hmem⟩⟩
  unfold refCountAt at hcount
  cases hlookup : s.mapInfo.lookup n with
  | none =>
    rw [hlookup, map_none, getD_none] at hcount
    omega
  | some info =>
    rw [hlookup, map_some, getD_some] at hcount
    refine mem_idsWith.mpr ⟨info, hlookup, ?_⟩
    by_contra htried
    have hzero := ((h.entries n info hlookup).tried (by simpa using htried)).2
    omega

theorem TablesChecked.filter_referred (h : TablesChecked s) :
    s.mapInfo.sortedEntries.filter referred = entriesWith false s := by
  apply filter_congr
  intro it hit
  have hentry := h.entries it.1 it.2 (Table.mem_sortedEntries.mp hit)
  unfold referred
  cases htried : it.2.fInTried with
  | true => simp [(hentry.tried htried).2]
  | false => simp [(hentry.new htried).1.ne']

theorem TablesChecked.toFile_eq (h : TablesChecked s) :
    s.toFile =
      { nKey := s.nKey
        nNew := s.nNew
        nTried := s.nTried
        nUBuckets := ADDRMAN_NEW_BUCKET_COUNT
        vNewInfo := (entriesWith false s).map Prod.snd
        vTriedInfo := (entriesWith true s).map Prod.snd
        vBuckets := (finRange ADDRMAN_NEW_BUCKET_COUNT).map fun b =>
          (s.idsIn b).map (renumber s) } := by
  obtain ⟨hinfos, -, hplaces⟩ := @writeNew_eq s.nNew 0 ∅ s.mapInfo.sortedEntries (nodup_ids s)
    (by rw [h.filter_referred, h.nNew, Int.zero_add])
  have htried : s.mapInfo.sortedEntries.filter (fun it => it.2.fInTried) = entriesWith true s := by
    apply filter_congr
    intro it _
    exact Bool.decide_eq_true.symm
  have hwritten := @writeTried_eq s.nTried 0 s.mapInfo.sortedEntries
    (by rw [htried, h.nTried, Int.zero_add])
  rw [h.filter_referred] at hinfos hplaces
  rw [htried] at hwritten
  unfold toFile
  dsimp only
  rw [hinfos]
  congr 1
  apply map_congr_left
  intro b _
  apply map_congr_left
  intro n hn
  have hnew := h.mem_new (mem_idsIn.mp hn)
  rw [hplaces n hnew, Int.zero_add]
  rw [renumber, if_pos hnew]
  rfl

/-! ### The new ids -/

theorem nodup_idsWith (fInTried : Bool) (s : AddrTables) : (idsWith fInTried s).Nodup :=
  nodup_entriesWith fInTried s

theorem renumber_new (hlookup : s.mapInfo.lookup n = some info) (hnew : info.fInTried = false) :
    n ∈ idsWith false s ∧ renumber s n = (idsWith false s).idxOf n := by
  have hmem : n ∈ idsWith false s := mem_idsWith.mpr ⟨info, hlookup, hnew⟩
  exact ⟨hmem, if_pos hmem⟩

theorem renumber_tried (hlookup : s.mapInfo.lookup n = some info) (htried : info.fInTried = true) :
    n ∈ idsWith true s ∧ renumber s n = (idsWith false s).length + (idsWith true s).idxOf n := by
  refine ⟨mem_idsWith.mpr ⟨info, hlookup, htried⟩, if_neg fun hmem => ?_⟩
  obtain ⟨info', hlookup', hnew⟩ := mem_idsWith.mp hmem
  cases hlookup.symm.trans hlookup'
  rw [htried] at hnew
  cases hnew

theorem renumber_injective {m : ℤ} {info' : CAddrInfo} (hn : s.mapInfo.lookup n = some info)
    (hm : s.mapInfo.lookup m = some info') (h : renumber s n = renumber s m) : n = m := by
  cases htried : info.fInTried with
  | false =>
    obtain ⟨hmem, hplace⟩ := renumber_new hn htried
    have hlt := idxOf_lt_length_of_mem hmem
    cases htried' : info'.fInTried with
    | false =>
      rw [hplace, (renumber_new hm htried').2, Nat.cast_inj] at h
      exact (idxOf_inj hmem).mp h
    | true =>
      rw [(renumber_tried hm htried').2] at h
      omega
  | true =>
    obtain ⟨hmem, hplace⟩ := renumber_tried hn htried
    cases htried' : info'.fInTried with
    | false =>
      obtain ⟨hmem', hplace'⟩ := renumber_new hm htried'
      have hlt := idxOf_lt_length_of_mem hmem'
      rw [hplace] at h
      omega
    | true =>
      rw [hplace, (renumber_tried hm htried').2, Int.add_right_inj, Nat.cast_inj] at h
      exact (idxOf_inj hmem).mp h

/-- What the types of the fields hold. -/
structure TablesFit (s : AddrTables) : Prop where
  nKey : s.nKey.length ≤ MAX_SIZE
  nNew : s.nNew < 2 ^ 31
  nTried : s.nTried < 2 ^ 31
  infos : ∀ n info, s.mapInfo.lookup n = some info → InfoFits info

theorem TablesChecked.length_new (h : TablesChecked s) :
    ((idsWith false s).length : ℤ) = s.nNew := by
  rw [idsWith, length_map, h.nNew]

theorem TablesChecked.fileFits (h : TablesChecked s) (hfit : TablesFit s) : FileFits s.toFile := by
  have hlength := h.length_new
  have hnNew := hfit.nNew
  rw [h.toFile_eq]
  have hcount : (ADDRMAN_NEW_BUCKET_COUNT : ℤ) < 2 ^ 31 := by decide
  refine ⟨hfit.nKey, ?_, hfit.nNew, ?_, hfit.nTried, ?_, hcount, fun info hinfo => ?_,
    fun vNew hvNew => ?_, fun vNew hvNew m hm => ?_⟩
  · rw [length_map, h.nNew]
  · rw [length_map, h.nTried]
  · rw [length_map, length_finRange]
  · obtain ⟨it, hit, rfl⟩ : ∃ it, (∃ fInTried, it ∈ entriesWith fInTried s) ∧ it.2 = info := by
      rcases mem_append.mp hinfo with hmem | hmem
      · obtain ⟨it, hit, rfl⟩ := mem_map.mp hmem
        exact ⟨it, ⟨false, hit⟩, rfl⟩
      · obtain ⟨it, hit, rfl⟩ := mem_map.mp hmem
        exact ⟨it, ⟨true, hit⟩, rfl⟩
    obtain ⟨fInTried, hit⟩ := hit
    exact hfit.infos it.1 it.2 (mem_entriesWith.mp hit).1
  · obtain ⟨b, -, rfl⟩ := mem_map.mp hvNew
    have hsubset : s.idsIn b ⊆ idsWith false s := fun n hn => h.mem_new (mem_idsIn.mp hn)
    have hle := (subperm_of_subset (nodup_idsIn s b) hsubset).length_le
    rw [length_map]
    omega
  · obtain ⟨b, -, rfl⟩ := mem_map.mp hvNew
    obtain ⟨n, hn, rfl⟩ := mem_map.mp hm
    have hnew := h.mem_new (mem_idsIn.mp hn)
    have hlt := idxOf_lt_length_of_mem hnew
    rw [renumber, if_pos hnew]
    omega

/-! ### The tables that come back -/

/-- What the file keeps of an entry, and its membership. -/
structure SameEntry (info info' : CAddrInfo) : Prop where
  toCAddress : info'.toCAddress = info.toCAddress
  source : info'.source = info.source
  nLastSuccess : info'.nLastSuccess = info.nLastSuccess
  nAttempts : info'.nAttempts = info.nAttempts
  nRefCount : info'.nRefCount = info.nRefCount
  fInTried : info'.fInTried = info.fInTried

structure Renumbered (f : ℤ → ℤ) (s s' : AddrTables) : Prop where
  nKey : s'.nKey = s.nKey
  nNew : s'.nNew = s.nNew
  nTried : s'.nTried = s.nTried
  entries : ∀ n info, s.mapInfo.lookup n = some info →
    ∃ info', s'.mapInfo.lookup (f n) = some info' ∧ SameEntry info info'
  injective : ∀ n ∈ s.mapInfo, ∀ m ∈ s.mapInfo, f n = f m → n = m
  onto : ∀ m ∈ s'.mapInfo, ∃ n ∈ s.mapInfo, f n = m
  vvNew : ∀ b, s'.vvNew b = (s.vvNew b).image f
  triedIds : ∀ n ∈ s.mapInfo, f n ∈ s'.triedIds ↔ n ∈ s.triedIds

/-- Reading back what was written gives the state, up to the ids. -/
def ReadsBack (env : List UInt8 → AddrEnv) (s : AddrTables) : Prop :=
  ∃ s' f, unserialise env s.serialise = .loaded s' ∧ Renumbered f s s'

def writtenIndices (s : AddrTables) (b : NewBucket) : List ℤ :=
  (s.idsIn b).map (renumber s)

theorem TablesChecked.exists_lookup (h : TablesChecked s) (hmem : n ∈ s.vvNew b) :
    ∃ info, s.mapInfo.lookup n = some info ∧ info.fInTried = false :=
  mem_idsWith.mp (h.mem_new hmem)

theorem TablesChecked.mem_writtenIndices (h : TablesChecked s)
    (hlookup : s.mapInfo.lookup n = some info) :
    renumber s n ∈ writtenIndices s b ↔ n ∈ s.vvNew b := by
  rw [writtenIndices, List.mem_map]
  constructor
  · rintro ⟨m, hm, hsame⟩
    rw [mem_idsIn] at hm
    obtain ⟨info', hlookup', -⟩ := h.exists_lookup hm
    rwa [renumber_injective hlookup' hlookup hsame] at hm
  · exact fun hmem => ⟨n, mem_idsIn.mpr hmem, rfl⟩

theorem TablesChecked.nodup_writtenIndices (h : TablesChecked s) (b : NewBucket) :
    (writtenIndices s b).Nodup := by
  refine Nodup.map_on (fun n hn m hm hsame => ?_) (nodup_idsIn s b)
  obtain ⟨info, hlookup, -⟩ := h.exists_lookup (mem_idsIn.mp hn)
  obtain ⟨info', hlookup', -⟩ := h.exists_lookup (mem_idsIn.mp hm)
  exact renumber_injective hlookup hlookup' hsame

theorem TablesChecked.length_buckets (h : TablesChecked s)
    (hlookup : s.mapInfo.lookup n = some info) :
    ((bucketsOf (references 0 ((List.finRange ADDRMAN_NEW_BUCKET_COUNT).map (writtenIndices s)))
      (renumber s n)).length : ℤ) = info.nRefCount ∧ info.nRefCount ≤ 4 := by
  have hcount := h.newIds n
  rw [refCountAt, hlookup, count_newIds_tables] at hcount
  have hset : (Finset.univ.filter fun b => n ∈ s.vvNew b) =
      ((List.finRange ADDRMAN_NEW_BUCKET_COUNT).filter fun b =>
        renumber s n ∈ writtenIndices s b).toFinset := by
    ext b
    rw [List.mem_toFinset, mem_filter, decide_eq_true_iff, h.mem_writtenIndices hlookup]
    simp
  rw [hset, toFinset_card_of_nodup ((nodup_finRange _).filter _)] at hcount
  rw [bucketsOf_map h.nodup_writtenIndices]
  refine ⟨hcount, ?_⟩
  have hentry := h.entries n info hlookup
  cases htried : info.fInTried with
  | false => exact (hentry.new htried).2
  | true =>
    rw [(hentry.tried htried).2]
    decide

section Restored

variable {env : List UInt8 → AddrEnv}

def restored (env : List UInt8 → AddrEnv) (s : AddrTables) : AddrTables :=
  (references 0 s.toFile.vBuckets).foldl (restoreIndex ADDRMAN_NEW_BUCKET_COUNT)
    (beforeBuckets (env s.nKey) (storedFile s.toFile))

def storedWith (fInTried : Bool) (s : AddrTables) : List CAddrInfo :=
  ((entriesWith fInTried s).map Prod.snd).map stored

theorem length_storedWith (fInTried : Bool) (s : AddrTables) :
    (storedWith fInTried s).length = (idsWith fInTried s).length := by
  rw [storedWith, idsWith, length_map, length_map, length_map]

theorem TablesChecked.keptEntries_eq (h : TablesChecked s) :
    keptEntries (env s.nKey) (storedFile s.toFile) =
      storedWith false s ++ (keptTried (env s.nKey) (storedWith true s)).map asTried := by
  rw [h.toFile_eq]
  rfl

theorem TablesChecked.vBuckets_eq (h : TablesChecked s) :
    s.toFile.vBuckets = (finRange ADDRMAN_NEW_BUCKET_COUNT).map (writtenIndices s) := by
  rw [h.toFile_eq]
  rfl

theorem unserialise_serialise (env : List UInt8 → AddrEnv) (h : TablesChecked s)
    (hfit : TablesFit s) : FileRead (storedFile s.toFile) ∧
      unserialise env s.serialise = .loaded (restored env s) := by
  have heval := eval_writeAddrFile (h.fileFits hfit)
  refine ⟨fileRead heval, ?_⟩
  rw [serialise, unserialise_of_eval heval, ofFile_eq]
  rfl

/-- How the tables that come back are laid out. -/
theorem restored_laid (env : List UInt8 → AddrEnv) (h : TablesChecked s) (hfit : TablesFit s) :
    Laid (env s.nKey)
      (storedWith false s ++ (keptTried (env s.nKey) (storedWith true s)).map asTried)
      (fun n => (bucketsOf (references 0 ((finRange ADDRMAN_NEW_BUCKET_COUNT).map
        (writtenIndices s))) n).take 4) (restored env s) := by
  have hread := (unserialise_serialise env h hfit).1
  have hnNew : 0 ≤ (storedFile s.toFile).nNew := by
    show 0 ≤ s.nNew
    rw [← h.length_new]
    exact Int.natCast_nonneg _
  have hlaid := @beforeBuckets_laid (env s.nKey) _ hread hnNew
  rw [h.keptEntries_eq] at hlaid
  rw [restored, h.vBuckets_eq]
  refine restoreIndexes_laid rfl hlaid ?_
  rintro ⟨b, m⟩ hmem
  rw [references_map] at hmem
  obtain ⟨b', -, hmem⟩ := mem_flatMap.mp hmem
  obtain ⟨m', hm', hpair⟩ := mem_map.mp hmem
  obtain ⟨n, hn, rfl⟩ := mem_map.mp hm'
  obtain ⟨rfl, rfl⟩ := Prod.mk.inj hpair
  obtain ⟨info, hlookup, hnew⟩ := h.exists_lookup (mem_idsIn.mp hn)
  obtain ⟨hin, hplace⟩ := renumber_new hlookup hnew
  have hlt := idxOf_lt_length_of_mem hin
  apply exists_entryAt.mpr
  rw [length_append, length_storedWith]
  omega

theorem restored_counters (env : List UInt8 → AddrEnv) (h : TablesChecked s)
    (hfit : TablesFit s) : (restored env s).nKey = s.nKey ∧ (restored env s).nNew = s.nNew ∧
      (restored env s).nTried = (keptTried (env s.nKey) (storedWith true s)).length := by
  have hread := (unserialise_serialise env h hfit).1
  have hnNew : 0 ≤ s.nNew := by
    rw [← h.length_new]
    exact Int.natCast_nonneg _
  have hnTried : 0 ≤ s.nTried := by
    rw [← h.nTried]
    exact Int.natCast_nonneg _
  obtain ⟨⟨hnKey, hsame, hsame'⟩, -⟩ := restoreIndexes_rest ADDRMAN_NEW_BUCKET_COUNT
    (references 0 s.toFile.vBuckets) (beforeBuckets (env s.nKey) (storedFile s.toFile))
  obtain ⟨hnKey', hsame''⟩ := beforeBuckets_same (env s.nKey) (storedFile s.toFile)
  refine ⟨hnKey.trans hnKey', hsame.trans hsame'', hsame'.trans ?_⟩
  rw [(@beforeBuckets_lengths (env s.nKey) _ hread hnNew hnTried).2, h.toFile_eq]
  rfl

theorem entryAt_renumber (hlookup : s.mapInfo.lookup n = some info) :
    entryAt (storedWith false s ++ (storedWith true s).map asTried) (renumber s n) =
      some { stored info with fInTried := info.fInTried } := by
  cases htried : info.fInTried with
  | false =>
    obtain ⟨hmem, hplace⟩ := renumber_new hlookup htried
    have hlt := idxOf_lt_length_of_mem hmem
    refine entryAt_eq_some.mpr ⟨_, hplace, ?_⟩
    rw [getElem?_append_left (by rw [length_storedWith]; exact hlt)]
    rw [storedWith, getElem?_map, getElem?_idxOf hlookup htried]
    rfl
  | true =>
    obtain ⟨-, hplace⟩ := renumber_tried hlookup htried
    refine entryAt_eq_some.mpr ⟨_, hplace, ?_⟩
    rw [← length_storedWith, getElem?_append_right (Nat.le_add_right _ _), Nat.add_sub_cancel_left]
    rw [storedWith, getElem?_map, getElem?_map, getElem?_idxOf hlookup htried]
    rfl

/-- Every place has its entry. -/
theorem exists_renumber {m : ℤ}
    (h : entryAt (storedWith false s ++ (storedWith true s).map asTried) m = some info) :
    ∃ n ∈ s.mapInfo, renumber s n = m := by
  obtain ⟨i, rfl, hi⟩ := entryAt_eq_some.mp h
  have hlt := (List.getElem?_eq_some_iff.mp hi).1
  rw [length_append, length_map, length_storedWith, length_storedWith] at hlt
  by_cases hnew : i < (idsWith false s).length
  · obtain ⟨info', hlookup, hfalse⟩ := mem_idsWith.mp (getElem_mem hnew)
    refine ⟨_, mem_of_lookup_eq_some hlookup, ?_⟩
    rw [(renumber_new hlookup hfalse).2, (nodup_idsWith false s).idxOf_getElem]
  · have hlt' : i - (idsWith false s).length < (idsWith true s).length := by omega
    obtain ⟨info', hlookup, htrue⟩ := mem_idsWith.mp (getElem_mem hlt')
    refine ⟨_, mem_of_lookup_eq_some hlookup, ?_⟩
    rw [(renumber_tried hlookup htrue).2, (nodup_idsWith true s).idxOf_getElem]
    omega

theorem restored_renumbered (env : List UInt8 → AddrEnv) (h : TablesChecked s)
    (hfit : TablesFit s) (hall : keptTried (env s.nKey) (storedWith true s) = storedWith true s) :
    Renumbered (renumber s) s (restored env s) := by
  have hlaid := restored_laid env h hfit
  rw [hall] at hlaid
  have htake {n : ℤ} {info : CAddrInfo} (hlookup : s.mapInfo.lookup n = some info) :
      (bucketsOf (references 0 ((finRange ADDRMAN_NEW_BUCKET_COUNT).map (writtenIndices s)))
        (renumber s n)).take 4 = (finRange ADDRMAN_NEW_BUCKET_COUNT).filter fun b =>
          renumber s n ∈ writtenIndices s b := by
    obtain ⟨hlength, hle⟩ := h.length_buckets hlookup
    rw [take_of_length_le (by omega), bucketsOf_map h.nodup_writtenIndices]
  have hentry {n : ℤ} {info : CAddrInfo} (hlookup : s.mapInfo.lookup n = some info) :=
    entryAt_renumber hlookup
  obtain ⟨hnKey, hnNew, hnTried⟩ := restored_counters env h hfit
  refine ⟨hnKey, hnNew, ?_, fun n info hlookup => ?_, fun n hn m hm hsame => ?_, fun m hm => ?_,
    fun b => ?_, fun n hn => ?_⟩
  · rw [hnTried, hall, ← h.nTried]
    rw [storedWith, length_map, length_map]
  · refine ⟨_, hlaid.lookup_of (hentry hlookup), ⟨rfl, rfl, rfl, rfl, ?_, rfl⟩⟩
    obtain ⟨hlength, hle⟩ := h.length_buckets hlookup
    dsimp only
    rw [length_take]
    omega
  · obtain ⟨info, hlookup⟩ := mem_iff.mp hn
    obtain ⟨info', hlookup'⟩ := mem_iff.mp hm
    exact renumber_injective hlookup hlookup' hsame
  · obtain ⟨info, hlookup⟩ := mem_iff.mp hm
    rw [hlaid.lookup] at hlookup
    obtain ⟨x, hx, -⟩ := map_eq_some_iff.mp hlookup
    exact exists_renumber hx
  · ext m
    rw [hlaid.vvNew, Finset.mem_image]
    constructor
    · intro hb
      have hmem := mem_of_mem_take hb
      rw [bucketsOf_map h.nodup_writtenIndices, mem_filter, decide_eq_true_iff] at hmem
      obtain ⟨n, hn, hsame⟩ := mem_map.mp hmem.2
      exact ⟨n, mem_idsIn.mp hn, hsame⟩
    · rintro ⟨n, hn, rfl⟩
      obtain ⟨info, hlookup, -⟩ := h.exists_lookup hn
      rw [htake hlookup, mem_filter, decide_eq_true_iff]
      exact ⟨mem_finRange b, (h.mem_writtenIndices hlookup).mpr hn⟩
  · obtain ⟨info, hlookup⟩ := mem_iff.mp hn
    rw [hlaid.mem_triedIds, h.triedIds, hentry hlookup]
    constructor
    · rintro ⟨x, hx, htried⟩
      rw [← Option.some.inj hx] at htried
      exact ⟨info, hlookup, htried⟩
    · rintro ⟨x, hx, htried⟩
      cases hlookup.symm.trans hx
      exact ⟨_, rfl, htried⟩

/-- A state that passes the check is read back if and only if no tried bucket gets more entries
than it has room for. -/
theorem readsBack_iff (env : List UInt8 → AddrEnv) (h : TablesChecked s) (hfit : TablesFit s) :
    ReadsBack env s ↔ ∀ b, ((entriesWith true s).countP fun it =>
      (env s.nKey).getTriedBucket it.2 = b) ≤ ADDRMAN_TRIED_BUCKET_SIZE := by
  have hcount (b : TriedBucket) : ((storedWith true s).countP fun info =>
      (env s.nKey).getTriedBucket info = b) = (entriesWith true s).countP fun it =>
        (env s.nKey).getTriedBucket it.2 = b := by
    rw [storedWith, countP_map, countP_map]
    rfl
  simp only [← hcount]
  rw [← keptTried_eq_iff]
  have hloaded := (unserialise_serialise env h hfit).2
  constructor
  · rintro ⟨s', f, hs', hrenumbered⟩
    rw [hloaded] at hs'
    cases hs'
    have hnTried := hrenumbered.nTried
    rw [(restored_counters env h hfit).2.2, ← h.nTried] at hnTried
    apply (keptTried_sublist _ _).eq_of_length
    unfold storedWith at hnTried ⊢
    rw [length_map, length_map]
    exact_mod_cast hnTried
  · exact fun hall => ⟨_, _, hloaded, restored_renumbered env h hfit hall⟩

end Restored

end Consistent

/-- A stream is read safely if and only if its file is as it has to be, and a state that passes
the check is read back if and only if no tried bucket gets more entries than it has room for. -/
theorem addrFile_safe_iff (env : List UInt8 → AddrEnv) :
    (∀ bytes, LoadsSafely (unserialise env bytes) ↔
      ∀ file rest, readAddrFile.eval bytes = some (file, rest) → FileOk (env file.nKey) file) ∧
    ∀ s, s.check = 0 → TablesFit s → (ReadsBack env s ↔
      ∀ b, ((entriesWith true s).countP fun it => (env s.nKey).getTriedBucket it.2 = b) ≤
        ADDRMAN_TRIED_BUCKET_SIZE) :=
  ⟨loadsSafely_iff env, fun _ hcheck hfit => readsBack_iff env (check_eq_zero_iff.mp hcheck) hfit⟩

section Sample

def sampleKeyedEnv : List UInt8 → AddrEnv := fun _ => sampleAddrEnv

/-- No entries, and one bucket more than there are. -/
def tooManyBuckets : List UInt8 :=
  [0, 0] ++ [0, 0, 0, 0] ++ [0, 0, 0, 0] ++ [1, 1, 0, 0] ++ replicate (4 * 257) 0

/-- No entries, and one bucket with the index of an entry. -/
def unknownIndex : List UInt8 :=
  [0, 0] ++ [0, 0, 0, 0] ++ [0, 0, 0, 0] ++ [1, 0, 0, 0] ++ [1, 0, 0, 0] ++ [5, 0, 0, 0]

/-- The first file reaches outside the tables, the second one leaves tables that fail the check. -/
theorem addrFile_unsafe : unserialise sampleKeyedEnv tooManyBuckets = .outside ∧
    ¬ LoadsSafely (unserialise sampleKeyedEnv tooManyBuckets) ∧
    ¬ LoadsSafely (unserialise sampleKeyedEnv unknownIndex) := by
  have hmany : (readAddrFile.eval tooManyBuckets).map (fun result => result.1.nUBuckets) =
      some 257 := by
    decide +kernel
  obtain ⟨result, heval, hcount⟩ := map_eq_some_iff.mp hmany
  have houtside : unserialise sampleKeyedEnv tooManyBuckets = .outside :=
    unserialise_outside heval (by rw [hcount]; decide)
  exact ⟨houtside, by rw [houtside]; exact id, by decide⟩

def sampleNewInfo : CAddrInfo :=
  { empty with ip := replicate 16 1, nRefCount := 1, nRandomPos := 0 }

def sampleTriedInfo : CAddrInfo :=
  { empty with
    ip := replicate 16 2
    nLastSuccess := 1700000000
    fInTried := true
    nRandomPos := 1 }

/-- A new entry and a tried one, with ids that do not start at zero. -/
def sampleTables : AddrTables where
  nKey := [7]
  nIdCount := 10
  mapInfo := insert 9 sampleNewInfo (insert 4 sampleTriedInfo ∅)
  mapAddr := insert sampleNewInfo.ip 9 (insert sampleTriedInfo.ip 4 ∅)
  vRandom := [9, 4]
  nTried := 1
  vvTried b := if b = 3 then [4] else []
  nNew := 1
  vvNew b := if b = 200 then {9} else ∅

theorem sampleTables_fit : TablesFit sampleTables := by
  refine ⟨by decide, by decide, by decide, fun n info hlookup => ?_⟩
  change (insert (9 : ℤ) sampleNewInfo
    (insert (4 : ℤ) sampleTriedInfo (∅ : Table ℤ CAddrInfo))).lookup n = some info at hlookup
  rw [Table.lookup_insert_ite, Table.lookup_insert_ite] at hlookup
  split at hlookup
  · cases hlookup
    exact ⟨by decide, by decide, by decide, by decide, by decide, by decide, by decide⟩
  · split at hlookup
    · cases hlookup
      exact ⟨by decide, by decide, by decide, by decide, by decide, by decide, by decide⟩
    · cases hlookup

theorem sampleTables_check : sampleTables.check = 0 := by with_unfolding_all decide

theorem sampleTables_fileOk : FileOk sampleAddrEnv (storedFile sampleTables.toFile) := by
  refine ⟨by decide, by decide, by decide, by decide,
    by decide +kernel, by decide +kernel, by decide +kernel, fun _ => ⟨by decide +kernel, ?_⟩⟩
  intro n hpos hlt
  have hcount : (storedFile sampleTables.toFile).nNew = 1 := by decide
  obtain rfl : n = 0 := by omega
  decide +kernel

/-- The two entries are read back, and reading them is safe. -/
theorem addrFile_safe_sampleTables :
    LoadsSafely (unserialise sampleKeyedEnv sampleTables.serialise) ∧
      ReadsBack sampleKeyedEnv sampleTables := by
  obtain ⟨hsafe, hback⟩ := addrFile_safe_iff sampleKeyedEnv
  have heval := eval_writeAddrFile
    ((check_eq_zero_iff.mp sampleTables_check).fileFits sampleTables_fit)
  constructor
  · rw [hsafe]
    intro file rest hfile
    cases heval.symm.trans hfile
    exact sampleTables_fileOk
  · rw [hback sampleTables sampleTables_check sampleTables_fit]
    decide

end Sample

end Phoenixcoin.Analysis
