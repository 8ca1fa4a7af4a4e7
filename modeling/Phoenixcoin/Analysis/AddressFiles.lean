import Phoenixcoin.Analysis.AddressLayout

/-!
# Reading the file of the address manager

What the three loops of the reading branch lay out, and for which files the check accepts it.
-/

set_option autoImplicit false

namespace Phoenixcoin.Analysis

open Lib Program Program.AddrTables List Option CAddrInfo Decoder

/-- What is read of an entry has the fields that are in memory only as in a new entry. -/
structure InfoRead (info : CAddrInfo) : Prop where
  nLastTry : info.nLastTry = 0
  nRefCount : info.nRefCount = 0
  fInTried : info.fInTried = false

/-- What the counts of a file say about its lists. -/
structure FileRead (file : AddrFile) : Prop where
  vNewInfo : file.vNewInfo.length = file.nNew.toNat
  vTriedInfo : file.vTriedInfo.length = file.nTried.toNat
  vBuckets : file.vBuckets.length = file.nUBuckets.toNat
  new : ∀ info ∈ file.vNewInfo, InfoRead info
  tried : ∀ info ∈ file.vTriedInfo, InfoRead info

variable {s s' bytes rest : List UInt8} {env : List UInt8 → AddrEnv}

theorem infosRead {n : ℕ} {infos : List CAddrInfo}
    (h : (codec.decoder.many n).eval s = some (infos, s')) :
    ∀ info ∈ infos, InfoRead info := by
  obtain ⟨-, encs, hencs, -⟩ := Codec.consumes_of_eval_many h
  intro info hinfo
  obtain ⟨i, hi⟩ := mem_iff_getElem?.mp hinfo
  obtain ⟨enc, -, henc⟩ : ∃ enc, encs[i]? = some enc ∧ codec.Encodes enc info := by
    have hlength := hencs.length_eq
    have hlt := (List.getElem?_eq_some_iff.mp hi).1
    refine ⟨encs[i], getElem?_eq_getElem _, ?_⟩
    have hget := hencs.get (hlength.symm ▸ hlt) hlt
    rwa [get_eq_getElem, get_eq_getElem, (List.getElem?_eq_some_iff.mp hi).2] at hget
  have hback := henc.1
  rw [← hback]
  exact ⟨rfl, rfl, rfl⟩

variable {file : AddrFile}

theorem fileRead (h : readAddrFile.eval s = some (file, s')) :
    FileRead file := by
  obtain ⟨nVersion, s₁, -, h⟩ := eval_bind_eq_some.mp h
  obtain ⟨nKey, s₂, -, h⟩ := eval_bind_eq_some.mp h
  obtain ⟨nNew, s₃, -, h⟩ := eval_bind_eq_some.mp h
  obtain ⟨nTried, s₄, -, h⟩ := eval_bind_eq_some.mp h
  obtain ⟨nUBuckets, s₅, -, h⟩ := eval_bind_eq_some.mp h
  obtain ⟨vNewInfo, s₆, hnew, h⟩ := eval_bind_eq_some.mp h
  obtain ⟨vTriedInfo, s₇, htried, h⟩ := eval_bind_eq_some.mp h
  obtain ⟨vBuckets, hbuckets, rfl⟩ := eval_map_eq_some.mp h
  exact ⟨length_of_eval_many hnew, length_of_eval_many htried,
    length_of_eval_many hbuckets, infosRead hnew, infosRead htried⟩

section Restore

variable {env : AddrEnv} {nUBuckets : ℤ} {entries : List CAddrInfo} {am : AddrTables}

/-- The buckets that the first loop puts an entry into: none, if those of the file are used. -/
def firstRefs (env : AddrEnv) (nUBuckets : ℤ) (entries : List CAddrInfo) (n : ℤ) :
    List NewBucket :=
  if nUBuckets = ADDRMAN_NEW_BUCKET_COUNT then []
  else ((entryAt entries n).filter fun info => !info.fInTried).toList.map fun info =>
    env.getNewBucket info info.source

variable {info : CAddrInfo} {n : ℤ} {refs : List (NewBucket × ℤ)}

theorem firstRefs_append (hn : n ≠ entries.length) :
    firstRefs env nUBuckets (entries ++ [info]) n = firstRefs env nUBuckets entries n := by
  unfold firstRefs
  rw [entryAt_append, if_neg hn]

theorem firstRefs_length :
    firstRefs env nUBuckets (entries ++ [info]) entries.length =
      if nUBuckets = ADDRMAN_NEW_BUCKET_COUNT ∨ info.fInTried = true then []
      else [env.getNewBucket info info.source] := by
  rw [firstRefs, entryAt_append]
  by_cases hcount : nUBuckets = ADDRMAN_NEW_BUCKET_COUNT
  · rw [if_pos hcount, if_pos (Or.inl hcount)]
  · cases htried : info.fInTried with
    | true => simp [htried]
    | false => simp [htried, hcount]

theorem firstRefs_of (hcount : nUBuckets ≠ ADDRMAN_NEW_BUCKET_COUNT)
    (hentry : entryAt entries n = some info) : firstRefs env nUBuckets entries n =
      if info.fInTried = true then [] else [env.getNewBucket info info.source] := by
  rw [firstRefs, if_neg hcount, hentry]
  cases htried : info.fInTried with
  | true => simp [htried]
  | false => simp [htried]

/-! ## The new entries -/

/-- What the loops leave alone. -/
structure SameCounters (am am' : AddrTables) : Prop where
  nKey : am'.nKey = am.nKey
  nNew : am'.nNew = am.nNew
  nTried : am'.nTried = am.nTried

theorem SameCounters.trans {am' am'' : AddrTables} (h : SameCounters am am')
    (h' : SameCounters am' am'') : SameCounters am am'' :=
  ⟨h'.nKey.trans h.nKey, h'.nNew.trans h.nNew, h'.nTried.trans h.nTried⟩

theorem restoreNew_rest (env : AddrEnv) (nUBuckets n : ℤ) (infos : List CAddrInfo)
    (am : AddrTables) :
    SameCounters am (restoreNew env nUBuckets n infos am) ∧
      (restoreNew env nUBuckets n infos am).vRandom.length = am.vRandom.length + infos.length := by
  induction infos generalizing n am with
  | nil => exact ⟨⟨rfl, rfl, rfl⟩, rfl⟩
  | cons info infos ih =>
    unfold restoreNew
    split
    · obtain ⟨hsame, hlength⟩ := ih (n + 1) ((am.enter n
        { info with nRefCount := info.nRefCount + 1 }).insertNew
          (env.getNewBucket info info.source) n)
      refine ⟨⟨hsame.nKey, hsame.nNew, hsame.nTried⟩, hlength.trans ?_⟩
      simp only [AddrTables.insertNew, AddrTables.enter, length_append, length_cons, length_nil]
      omega
    · obtain ⟨hsame, hlength⟩ := ih (n + 1) (am.enter n info)
      refine ⟨⟨hsame.nKey, hsame.nNew, hsame.nTried⟩, hlength.trans ?_⟩
      simp only [AddrTables.enter, length_append, length_cons, length_nil]
      omega

theorem restoreNew_laid {infos : List CAddrInfo} (hread : ∀ info ∈ infos, InfoRead info)
    (h : Laid env entries (firstRefs env nUBuckets entries) am) :
    Laid env (entries ++ infos) (firstRefs env nUBuckets (entries ++ infos))
      (restoreNew env nUBuckets entries.length infos am) := by
  induction infos generalizing entries am with
  | nil =>
    rw [append_nil]
    exact h
  | cons info infos ih =>
    have hinfo := hread info mem_cons_self
    have hlength : (entries.length : ℤ) + 1 = (entries ++ [info]).length := by
      rw [length_append, length_singleton, Nat.cast_add, Nat.cast_one]
    have hassoc : entries ++ info :: infos = entries ++ [info] ++ infos := by
      rw [append_assoc, singleton_append]
    have hrandom : am.vRandom.length = entries.length := by
      rw [h.vRandom, length_map, length_range]
    have huntried (b : TriedBucket) : ¬ (info.fInTried = true ∧ env.getTriedBucket info = b) := by
      rintro ⟨htried, -⟩
      rw [hinfo.fInTried] at htried
      cases htried
    rw [restoreNew, hassoc, hlength]
    split
    · next hcount =>
      refine ih (fun x hx => hread x (mem_cons_of_mem info hx)) (h.extend info ?_ rfl rfl
        (fun m hm => firstRefs_append hm) (fun b m => ?_) fun b => (if_neg (huntried b)).symm)
      · rw [firstRefs_length, if_neg]
        · show Finmap.insert _ _ am.mapInfo = _
          rw [hrandom, hinfo.nRefCount]
          rfl
        · simp [hcount, hinfo.fInTried]
      · rw [mem_insertNew]
        show b = env.getNewBucket info info.source ∧ m = entries.length ∨ m ∈ am.vvNew b ↔ _
        rw [h.vvNew]
        by_cases hm : m = entries.length
        · rw [hm, h.unknown _ entryAt_length, firstRefs_length,
            if_neg (by simp [hcount, hinfo.fInTried]), mem_singleton, and_iff_left rfl,
            or_iff_left not_mem_nil]
        · rw [firstRefs_append hm, or_iff_right fun hin => hm hin.2]
    · next hcount =>
      have hnone : firstRefs env nUBuckets (entries ++ [info]) entries.length = [] := by
        rw [firstRefs_length, if_pos (Or.inl (not_not.mp hcount))]
      refine ih (fun x hx => hread x (mem_cons_of_mem info hx)) (h.extend info ?_ rfl rfl
        (fun m hm => firstRefs_append hm) (fun b m => ?_) fun b => (if_neg (huntried b)).symm)
      · rw [hnone]
        show Finmap.insert _ _ am.mapInfo = _
        rw [hrandom, hinfo.nRefCount]
        rfl
      · show m ∈ am.vvNew b ↔ _
        rw [h.vvNew]
        by_cases hm : m = entries.length
        · rw [hm, hnone, h.unknown _ entryAt_length]
        · rw [firstRefs_append hm]

/-! ## The tried entries -/

/-- The tried entry `info` is kept if its bucket has room beside those kept before it. -/
def keepTried (env : AddrEnv) (kept : List CAddrInfo) (info : CAddrInfo) : List CAddrInfo :=
  if (kept.countP fun other => env.getTriedBucket other = env.getTriedBucket info) <
    ADDRMAN_TRIED_BUCKET_SIZE then kept ++ [info] else kept

def keptTried (env : AddrEnv) (infos : List CAddrInfo) : List CAddrInfo :=
  infos.foldl (keepTried env) []

theorem keptTried_sublist (env : AddrEnv) (infos : List CAddrInfo) :
    (keptTried env infos).Sublist infos := by
  have hfold : ∀ (infos kept : List CAddrInfo),
      (infos.foldl (keepTried env) kept).Sublist (kept ++ infos) := by
    intro infos
    induction infos with
    | nil =>
      intro kept
      rw [append_nil]
      exact Sublist.refl kept
    | cons info infos ih =>
      intro kept
      have hrest := ih (keepTried env kept info)
      unfold keepTried at hrest
      refine hrest.trans ?_
      split
      · rw [append_assoc]
        exact Sublist.refl _
      · exact (Sublist.refl kept).append (sublist_cons_self info infos)
  exact hfold infos []

def asTried (info : CAddrInfo) : CAddrInfo := { info with fInTried := true }

/-- The second loop counts what it drops. -/
theorem restoreTried_rest (env : AddrEnv) (infos : List CAddrInfo) (am : AddrTables) (nLost : ℤ) :
    SameCounters am (infos.foldl (restoreTried env) (am, nLost)).1 ∧
      ((infos.foldl (restoreTried env) (am, nLost)).1.vRandom.length : ℤ) +
        (infos.foldl (restoreTried env) (am, nLost)).2 =
          am.vRandom.length + nLost + infos.length := by
  induction infos generalizing am nLost with
  | nil => exact ⟨⟨rfl, rfl, rfl⟩, (Int.add_zero _).symm⟩
  | cons info infos ih =>
    rw [foldl_cons]
    unfold restoreTried
    dsimp only
    split
    · obtain ⟨hsame, hlength⟩ := ih ({ am.enter am.nIdCount { info with fInTried := true } with
        vvTried := Function.update am.vvTried (env.getTriedBucket info)
          (am.vvTried (env.getTriedBucket info) ++ [am.nIdCount])
        nIdCount := am.nIdCount + 1 }) nLost
      refine ⟨⟨hsame.nKey, hsame.nNew, hsame.nTried⟩, hlength.trans ?_⟩
      simp only [AddrTables.enter, length_append, length_cons, length_nil]
      omega
    · obtain ⟨hsame, hlength⟩ := ih am (nLost + 1)
      refine ⟨hsame, hlength.trans ?_⟩
      rw [length_cons]
      omega

theorem restoreTried_laid {news infos kept : List CAddrInfo} {nLost : ℤ}
    (hnews : ∀ info ∈ news, InfoRead info) (hread : ∀ info ∈ infos, InfoRead info)
    (h : Laid env (news ++ kept.map asTried)
      (firstRefs env nUBuckets (news ++ kept.map asTried)) am)
    (hnIdCount : am.nIdCount = (news ++ kept.map asTried).length) :
    Laid env (news ++ (infos.foldl (keepTried env) kept).map asTried)
      (firstRefs env nUBuckets (news ++ (infos.foldl (keepTried env) kept).map asTried))
      (infos.foldl (restoreTried env) (am, nLost)).1 := by
  induction infos generalizing kept am nLost with
  | nil => exact h
  | cons info infos ih =>
    have hinfo := hread info mem_cons_self
    have hrest : ∀ x ∈ infos, InfoRead x := fun x hx => hread x (mem_cons_of_mem info hx)
    have hlength : (am.vvTried (env.getTriedBucket info)).length =
        kept.countP fun other => env.getTriedBucket other = env.getTriedBucket info := by
      rw [h.length, countP_append, countP_map]
      have hnone : (news.countP fun x =>
          x.fInTried = true ∧ env.getTriedBucket x = env.getTriedBucket info) = 0 := by
        rw [countP_eq_zero]
        intro x hx
        simp [(hnews x hx).fInTried]
      rw [hnone, Nat.zero_add]
      apply countP_congr
      intro x _
      rw [Function.comp_apply, decide_eq_true_iff, decide_eq_true_iff]
      exact and_iff_right rfl
    rw [foldl_cons, foldl_cons]
    unfold restoreTried keepTried
    dsimp only
    rw [hlength]
    split
    · have hrandom : am.vRandom.length = (news ++ kept.map asTried).length := by
        rw [h.vRandom, length_map, length_range]
      have hnone : firstRefs env nUBuckets (news ++ kept.map asTried ++ [asTried info])
          (news ++ kept.map asTried).length = [] := by
        rw [firstRefs_length]
        exact if_pos (Or.inr rfl)
      have hassoc : news ++ (kept ++ [info]).map asTried =
          news ++ kept.map asTried ++ [asTried info] := by
        rw [map_append, map_singleton, append_assoc]
      apply ih hrest
      · rw [hassoc]
        refine h.extend (asTried info) ?_ ?_ ?_ (fun m hm => firstRefs_append hm) (fun b m => ?_)
          fun b => ?_
        · rw [hnone]
          show Finmap.insert _ _ am.mapInfo = _
          rw [hrandom, hinfo.nRefCount, ← hnIdCount]
          rfl
        · rw [← hnIdCount]
          rfl
        · rw [← hnIdCount]
          rfl
        · show m ∈ am.vvNew b ↔ _
          rw [h.vvNew]
          by_cases hm : m = (news ++ kept.map asTried).length
          · rw [hm, hnone, h.unknown _ entryAt_length]
          · rw [firstRefs_append hm]
        · show Function.update am.vvTried _ _ b = _
          rw [← hnIdCount, Function.update_apply]
          by_cases hb : b = env.getTriedBucket info
          · rw [if_pos hb, if_pos ⟨rfl, hb.symm⟩, hb]
          · rw [if_neg hb, if_neg fun hin => hb hin.2.symm]
      · rw [hassoc, length_append, Nat.cast_add, ← hnIdCount]
        rfl
    · exact ih hrest h hnIdCount

/-! ## The buckets -/

/-- The indices of the buckets from `b` on, each with its bucket. -/
def references : ℕ → List (List ℤ) → List (NewBucket × ℤ)
  | _, [] => []
  | b, indices :: rest =>
    indices.map (fun nIndex => (Fin.ofNat ADDRMAN_NEW_BUCKET_COUNT b, nIndex)) ++
      references (b + 1) rest

theorem restoreBuckets_eq {b : ℕ} {buckets : List (List ℤ)} (hb : b ≤ ADDRMAN_NEW_BUCKET_COUNT) :
    restoreBuckets nUBuckets b buckets am = if b + buckets.length ≤ ADDRMAN_NEW_BUCKET_COUNT
      then some ((references b buckets).foldl (restoreIndex nUBuckets) am) else none := by
  induction buckets generalizing b am with
  | nil => exact (if_pos hb).symm
  | cons indices buckets ih =>
    rw [restoreBuckets, references, length_cons]
    by_cases hlt : b < ADDRMAN_NEW_BUCKET_COUNT
    · have hbucket : (⟨b, hlt⟩ : NewBucket) = Fin.ofNat ADDRMAN_NEW_BUCKET_COUNT b :=
        Fin.ext (Nat.mod_eq_of_lt hlt).symm
      rw [dif_pos hlt, ih hlt, hbucket, foldl_append]
      exact if_congr (by omega) rfl rfl
    · rw [dif_neg hlt, if_neg (by omega)]

/-- The buckets that refer to `n`, in the order of the file. -/
def bucketsOf (refs : List (NewBucket × ℤ)) (n : ℤ) : List NewBucket :=
  (refs.filter fun reference => reference.2 = n).map Prod.fst

theorem bucketsOf_append (refs : List (NewBucket × ℤ)) (b : NewBucket) (m n : ℤ) :
    bucketsOf (refs ++ [(b, m)]) n = bucketsOf refs n ++ if m = n then [b] else [] := by
  unfold bucketsOf
  by_cases hm : m = n <;> simp [hm]

theorem mem_bucketsOf {b : NewBucket} : b ∈ bucketsOf refs n ↔ (b, n) ∈ refs := by
  rw [bucketsOf, List.mem_map]
  constructor
  · rintro ⟨other, hother, hsame⟩
    obtain ⟨hmem, hid⟩ := mem_filter.mp hother
    have hpair : other = (b, n) := Prod.ext hsame (of_decide_eq_true hid)
    rwa [hpair] at hmem
  · intro hmem
    exact ⟨(b, n), mem_filter.mpr ⟨hmem, decide_eq_true rfl⟩, rfl⟩

theorem restoreIndexes_rest (nUBuckets : ℤ) (refs : List (NewBucket × ℤ)) (am : AddrTables) :
    SameCounters am (refs.foldl (restoreIndex nUBuckets) am) ∧
      (refs.foldl (restoreIndex nUBuckets) am).vRandom = am.vRandom := by
  induction refs generalizing am with
  | nil => exact ⟨⟨rfl, rfl, rfl⟩, rfl⟩
  | cons reference refs ih =>
    have hstep : SameCounters am (restoreIndex nUBuckets am reference) ∧
        (restoreIndex nUBuckets am reference).vRandom = am.vRandom := by
      unfold restoreIndex
      dsimp only
      split
      · exact ⟨⟨rfl, rfl, rfl⟩, rfl⟩
      · exact ⟨⟨rfl, rfl, rfl⟩, rfl⟩
    obtain ⟨hsame, hvRandom⟩ := ih (restoreIndex nUBuckets am reference)
    exact ⟨hstep.1.trans hsame, hvRandom.trans hstep.2⟩

theorem setInfo_infoAt (h : am.mapInfo.lookup n = some info) : am.setInfo n (am.infoAt n) = am := by
  rw [setInfo, infoAt, h, getD_some, Table.insert_of_lookup_some h]

/-- Indices of entries that exist, in a file with another number of buckets. -/
theorem restoreIndexes_unused (hcount : nUBuckets ≠ ADDRMAN_NEW_BUCKET_COUNT)
    (hknown : ∀ reference ∈ refs, ∃ info, am.mapInfo.lookup reference.2 = some info) :
    refs.foldl (restoreIndex nUBuckets) am = am := by
  induction refs with
  | nil => rfl
  | cons reference refs ih =>
    obtain ⟨info, hlookup⟩ := hknown reference mem_cons_self
    have hsame : restoreIndex nUBuckets am reference = am := by
      rw [restoreIndex, if_neg fun h => hcount h.1, setInfo_infoAt hlookup]
    rw [foldl_cons, hsame]
    exact ih fun other hother => hknown other (mem_cons_of_mem _ hother)

theorem restoreIndexes_laid (hcount : nUBuckets = ADDRMAN_NEW_BUCKET_COUNT)
    (h : Laid env entries (fun _ => []) am)
    (hknown : ∀ reference ∈ refs, ∃ info, entryAt entries reference.2 = some info) :
    Laid env entries (fun n => (bucketsOf refs n).take 4)
      (refs.foldl (restoreIndex nUBuckets) am) := by
  induction refs using reverseRecOn with
  | nil => exact h
  | append_singleton refs reference ih =>
    obtain ⟨b, m⟩ := reference
    obtain ⟨info, hentry⟩ := hknown (b, m) (mem_append_right _ mem_cons_self)
    have hlaid := ih fun other hother => hknown other (mem_append_left _ hother)
    rw [foldl_append, foldl_cons]
    generalize refs.foldl (restoreIndex nUBuckets) am = am' at hlaid ⊢
    have hlookup := hlaid.lookup m
    rw [hentry] at hlookup
    have hfree_iff : (am'.infoAt m).nRefCount < ADDRMAN_NEW_BUCKETS_PER_ADDRESS ↔
        (bucketsOf refs m).length < 4 := by
      rw [infoAt, hlookup]
      show (((bucketsOf refs m).take 4).length : ℤ) < 4 ↔ _
      rw [length_take]
      omega
    unfold restoreIndex
    by_cases hfree : (bucketsOf refs m).length < 4
    · have hrefs : (fun n => (bucketsOf (refs ++ [(b, m)]) n).take 4) =
          Function.update (fun n => (bucketsOf refs n).take 4) m
            ((bucketsOf refs m).take 4 ++ [b]) := by
        funext n
        rw [bucketsOf_append]
        by_cases hn : n = m
        · rw [hn, Function.update_self, if_pos rfl, take_of_length_le hfree.le, take_of_length_le]
          rw [length_append]
          exact hfree
        · rw [Function.update_of_ne hn, if_neg (Ne.symm hn), append_nil]
      rw [if_pos ⟨hcount, hfree_iff.mpr hfree⟩, hrefs]
      exact hlaid.refer hentry
    · have hrefs : (fun n => (bucketsOf (refs ++ [(b, m)]) n).take 4) =
          fun n => (bucketsOf refs n).take 4 := by
        funext n
        rw [bucketsOf_append]
        by_cases hn : n = m
        · rw [hn, take_append_of_le_length (by omega)]
        · rw [if_neg (Ne.symm hn), append_nil]
      rw [if_neg fun hfew => hfree (hfree_iff.mp hfew.2), setInfo_infoAt hlookup, hrefs]
      exact hlaid

/-- An entry that the last loop makes has no place in `vRandom`. -/
theorem restoreIndexes_unknown {refs : List (NewBucket × ℤ)} {reference : NewBucket × ℤ}
    (hmem : reference ∈ refs) (hnone : am.mapInfo.lookup reference.2 = none) :
    ∃ info, (refs.foldl (restoreIndex nUBuckets) am).mapInfo.lookup reference.2 = some info ∧
      info.nRandomPos = -1 := by
  have hstep (am : AddrTables) (other : NewBucket × ℤ) (n : ℤ) :
      ((restoreIndex nUBuckets am other).mapInfo.lookup n).map nRandomPos =
        if n = other.2 then some (am.infoAt n).nRandomPos
        else (am.mapInfo.lookup n).map nRandomPos := by
    unfold restoreIndex
    dsimp only
    split
    · show ((Finmap.insert other.2 _ am.mapInfo).lookup n).map nRandomPos = _
      rw [Table.lookup_insert_ite]
      split
      · next hn => rw [hn, map_some]
      · rfl
    · show ((Finmap.insert other.2 _ am.mapInfo).lookup n).map nRandomPos = _
      rw [Table.lookup_insert_ite]
      split
      · next hn => rw [hn, map_some]
      · rfl
  have hstays : ∀ (refs : List (NewBucket × ℤ)) (am : AddrTables),
      (am.mapInfo.lookup reference.2).map nRandomPos = some (-1) →
        ((refs.foldl (restoreIndex nUBuckets) am).mapInfo.lookup reference.2).map
          nRandomPos = some (-1) := by
    intro refs
    induction refs with
    | nil => exact fun am h => h
    | cons other refs ih =>
      intro am h
      refine ih _ ?_
      rw [hstep]
      split
      · obtain ⟨info, hinfo, hpos⟩ := map_eq_some_iff.mp h
        rw [infoAt, hinfo, getD_some, hpos]
      · exact h
  have hmade : ∀ (refs : List (NewBucket × ℤ)) (am : AddrTables), reference ∈ refs →
      am.mapInfo.lookup reference.2 = none →
        ((refs.foldl (restoreIndex nUBuckets) am).mapInfo.lookup reference.2).map
          nRandomPos = some (-1) := by
    intro refs
    induction refs with
    | nil => exact fun am hmem => absurd hmem not_mem_nil
    | cons other refs ih =>
      intro am hmem hnone
      rw [foldl_cons]
      have hfirst := hstep am other reference.2
      by_cases hsame : reference.2 = other.2
      · apply hstays
        rw [hfirst, if_pos hsame]
        rw [infoAt, hnone]
        rfl
      · rw [if_neg hsame, hnone, map_none, map_eq_none_iff] at hfirst
        refine ih _ ((mem_cons.mp hmem).resolve_left ?_) hfirst
        rintro rfl
        exact hsame rfl
  exact map_eq_some_iff.mp (hmade refs am hmem hnone)

end Restore

/-! ## Which files the check accepts -/

section Files

variable {env : AddrEnv} {file : AddrFile}

def beforeBuckets (env : AddrEnv) (file : AddrFile) : AddrTables :=
  let am := restoreNew env file.nUBuckets 0 file.vNewInfo (cleared file)
  let restored := file.vTriedInfo.foldl (restoreTried env) ({ am with nIdCount := am.nNew }, 0)
  { restored.1 with nTried := restored.1.nTried - restored.2 }

def keptEntries (env : AddrEnv) (file : AddrFile) : List CAddrInfo :=
  file.vNewInfo ++ (keptTried env file.vTriedInfo).map asTried

theorem ofFile_eq (env : AddrEnv) (file : AddrFile) :
    ofFile env file = if file.vBuckets.length ≤ ADDRMAN_NEW_BUCKET_COUNT
      then some ((references 0 file.vBuckets).foldl (restoreIndex file.nUBuckets)
        (beforeBuckets env file)) else none := by
  show restoreBuckets file.nUBuckets 0 file.vBuckets (beforeBuckets env file) = _
  rw [restoreBuckets_eq (Nat.zero_le _), Nat.zero_add]

theorem beforeBuckets_same (env : AddrEnv) (file : AddrFile) :
    (beforeBuckets env file).nKey = file.nKey ∧ (beforeBuckets env file).nNew = file.nNew := by
  obtain ⟨hfirst, -⟩ := restoreNew_rest env file.nUBuckets 0 file.vNewInfo (cleared file)
  unfold beforeBuckets
  generalize restoreNew env file.nUBuckets 0 file.vNewInfo (cleared file) = am at hfirst ⊢
  obtain ⟨hsecond, -⟩ := restoreTried_rest env file.vTriedInfo { am with nIdCount := am.nNew } 0
  exact ⟨hsecond.nKey.trans hfirst.nKey, hsecond.nNew.trans hfirst.nNew⟩

theorem beforeBuckets_nTried (env : AddrEnv) (file : AddrFile) :
    (beforeBuckets env file).vRandom.length + (file.nTried - (beforeBuckets env file).nTried) =
      (file.vNewInfo.length : ℤ) + file.vTriedInfo.length := by
  obtain ⟨hfirst, hlength⟩ := restoreNew_rest env file.nUBuckets 0 file.vNewInfo (cleared file)
  unfold beforeBuckets
  dsimp only
  generalize restoreNew env file.nUBuckets 0 file.vNewInfo (cleared file) = am at hfirst hlength ⊢
  obtain ⟨hsecond, hlength'⟩ := restoreTried_rest env file.vTriedInfo
    { am with nIdCount := am.nNew } 0
  have hnTried : file.nTried = am.nTried := hfirst.nTried.symm
  have hzero : am.vRandom.length = file.vNewInfo.length := hlength.trans (Nat.zero_add _)
  rw [hsecond.nTried]
  dsimp only at hlength' ⊢
  omega

section

variable (hread : FileRead file) (hnNew : 0 ≤ file.nNew)
include hread hnNew

theorem beforeBuckets_laid :
    Laid env (keptEntries env file) (firstRefs env file.nUBuckets (keptEntries env file))
      (beforeBuckets env file) := by
  have hempty (n : ℤ) : entryAt [] n = none := by
    unfold entryAt
    split <;> rfl
  have hcleared : Laid env [] (firstRefs env file.nUBuckets []) (cleared file) := by
    have hrefs (n : ℤ) : firstRefs env file.nUBuckets [] n = [] := by
      rw [firstRefs, hempty]
      split <;> rfl
    refine ⟨fun n => ?_, rfl, fun _ n info hinfo => ?_, fun b n => ?_, fun n _ => hrefs n,
      fun b n => ?_, fun b => nodup_nil, fun b => rfl⟩
    · rw [hempty]
      rfl
    · rw [hempty] at hinfo
      cases hinfo
    · rw [hrefs]
      exact iff_of_false (Finset.notMem_empty n) not_mem_nil
    · refine iff_of_false not_mem_nil ?_
      rintro ⟨info, hinfo, -⟩
      rw [hempty] at hinfo
      cases hinfo
  have hnew := restoreNew_laid hread.new hcleared
  have hcount := (restoreNew_rest env file.nUBuckets 0 file.vNewInfo (cleared file)).1.nNew
  unfold beforeBuckets
  generalize restoreNew env file.nUBuckets 0 file.vNewInfo (cleared file) = am at hnew hcount ⊢
  have hlength : (file.vNewInfo.length : ℤ) = am.nNew := by
    rw [hcount, hread.vNewInfo, Int.toNat_of_nonneg hnNew]
    rfl
  have hlaid := @restoreTried_laid env file.nUBuckets { am with nIdCount := am.nNew }
    file.vNewInfo file.vTriedInfo [] 0 hread.new hread.tried
  rw [map_nil, append_nil] at hlaid
  exact (hlaid (hnew.counters am.nNew am.nTried) hlength.symm).counters _ _

/-- The counters of a file whose counts are not negative. -/
theorem beforeBuckets_lengths (hnTried : 0 ≤ file.nTried) :
    (beforeBuckets env file).nNew = file.vNewInfo.length ∧
      (beforeBuckets env file).nTried = (keptTried env file.vTriedInfo).length := by
  have hrandom := congrArg length (@beforeBuckets_laid env file hread hnNew).vRandom
  have hcounts := beforeBuckets_nTried env file
  have hvNewInfo := hread.vNewInfo
  rw [length_map, length_range] at hrandom
  rw [keptEntries, length_append, length_map] at hrandom
  rw [hread.vTriedInfo] at hcounts
  rw [(beforeBuckets_same env file).2]
  omega

theorem beforeBuckets_counts (hnTried : 0 ≤ file.nTried) :
    (beforeBuckets env file).nNew =
        ((keptEntries env file).map fInTried).count false ∧
      (beforeBuckets env file).nTried =
        ((keptEntries env file).map fInTried).count true := by
  have hfalse : file.vNewInfo.map fInTried =
      replicate file.vNewInfo.length false := by
    rw [eq_replicate_iff, length_map]
    refine ⟨rfl, fun b hb => ?_⟩
    obtain ⟨info, hinfo, rfl⟩ := mem_map.mp hb
    exact (hread.new info hinfo).fInTried
  have htrue : ((keptTried env file.vTriedInfo).map asTried).map fInTried =
      replicate (keptTried env file.vTriedInfo).length true := by
    rw [eq_replicate_iff, length_map, length_map]
    refine ⟨rfl, fun b hb => ?_⟩
    obtain ⟨info, hinfo, rfl⟩ := mem_map.mp hb
    obtain ⟨x, -, rfl⟩ := mem_map.mp hinfo
    rfl
  obtain ⟨hlength, hlength'⟩ := @beforeBuckets_lengths env file hread hnNew hnTried
  rw [hlength, hlength']
  rw [keptEntries, map_append, hfalse, htrue, count_append, count_append, count_replicate,
    count_replicate, count_replicate]
  simp

end

/-- What a file has to hold: new and tried entries with different addresses, and indices of
entries that are kept. Where the buckets of the file are used, the indices are those of the new
entries, each new entry has one, and its first four are in different buckets. -/
structure FileOk (env : AddrEnv) (file : AddrFile) : Prop where
  nNew : 0 ≤ file.nNew
  nTried : 0 ≤ file.nTried
  nUBuckets : file.nUBuckets ≤ ADDRMAN_NEW_BUCKET_COUNT
  addresses : ((file.vNewInfo ++ keptTried env file.vTriedInfo).map fun info => info.ip).Nodup
  new : ∀ info ∈ file.vNewInfo, 0 ≤ info.nLastSuccess
  tried : ∀ info ∈ keptTried env file.vTriedInfo, 0 < info.nLastSuccess
  indices : ∀ reference ∈ references 0 file.vBuckets, 0 ≤ reference.2 ∧
    reference.2 < file.nNew + (keptTried env file.vTriedInfo).length
  buckets : file.nUBuckets = ADDRMAN_NEW_BUCKET_COUNT →
    (∀ reference ∈ references 0 file.vBuckets, reference.2 < file.nNew) ∧
      ∀ n, 0 ≤ n → n < file.nNew → bucketsOf (references 0 file.vBuckets) n ≠ [] ∧
        ((bucketsOf (references 0 file.vBuckets) n).take 4).Nodup

variable {refs : ℤ → List NewBucket}

variable {info : CAddrInfo} {n : ℤ} {am : AddrTables}

theorem entryLaid_new (hinfo : InfoRead info) : EntryLaid refs n info ↔
      0 ≤ info.nLastSuccess ∧ refs n ≠ [] ∧ (refs n).length ≤ 4 ∧ (refs n).Nodup := by
  constructor
  · intro h
    obtain ⟨hne, hle⟩ := h.new hinfo.fInTried
    exact ⟨h.nLastSuccess, hne, hle, h.nodup⟩
  · rintro ⟨hsuccess, hne, hle, hnodup⟩
    refine ⟨hsuccess, fun htried => ?_, fun _ => ⟨hne, hle⟩, hnodup⟩
    rw [hinfo.fInTried] at htried
    cases htried

theorem entryLaid_tried :
    EntryLaid refs n (asTried info) ↔ 0 < info.nLastSuccess ∧ refs n = [] := by
  constructor
  · intro h
    obtain ⟨hne, hnil⟩ := h.tried rfl
    have hle : 0 ≤ info.nLastSuccess := h.nLastSuccess
    exact ⟨lt_of_le_of_ne hle (Ne.symm hne), hnil⟩
  · rintro ⟨hsuccess, hnil⟩
    refine ⟨hsuccess.le, fun _ => ⟨hsuccess.ne', hnil⟩, fun hnew => (nomatch hnew), ?_⟩
    rw [hnil]
    exact nodup_nil

theorem checked_iff_entries (hread : FileRead file) (hnNew : 0 ≤ file.nNew)
    (hnTried : 0 ≤ file.nTried) (hlaid : Laid env (keptEntries env file) refs am)
    (hsame : am.nNew = (beforeBuckets env file).nNew)
    (hsame' : am.nTried = (beforeBuckets env file).nTried) :
    TablesChecked am ↔
      ((file.vNewInfo ++ keptTried env file.vTriedInfo).map fun info => info.ip).Nodup ∧
      (∀ n info, entryAt file.vNewInfo n = some info →
        0 ≤ info.nLastSuccess ∧ refs n ≠ [] ∧ (refs n).length ≤ 4 ∧ (refs n).Nodup) ∧
      ∀ n info, entryAt (keptTried env file.vTriedInfo) n = some info →
        0 < info.nLastSuccess ∧ refs (file.nNew + n) = [] := by
  obtain ⟨hcountNew, hcountTried⟩ := @beforeBuckets_counts env file hread hnNew hnTried
  have hips : (keptEntries env file).map (fun info => info.ip) =
      (file.vNewInfo ++ keptTried env file.vTriedInfo).map fun info => info.ip := by
    rw [keptEntries, map_append, map_append, List.map_map]
    rfl
  have hkept : ∀ info ∈ keptTried env file.vTriedInfo, InfoRead info :=
    fun info hinfo => hread.tried info ((keptTried_sublist env file.vTriedInfo).subset hinfo)
  have hnLastTry : ∀ info ∈ keptEntries env file, info.nLastTry = 0 := by
    intro info hinfo
    rcases mem_append.mp hinfo with hnew | htried
    · exact (hread.new info hnew).nLastTry
    · obtain ⟨x, hx, rfl⟩ := List.mem_map.mp htried
      exact (hkept x hx).nLastTry
  have hlength : (file.vNewInfo.length : ℤ) = file.nNew := by
    rw [hread.vNewInfo, Int.toNat_of_nonneg hnNew]
  rw [hlaid.checked_iff (hsame'.trans hcountTried) (hsame.trans hcountNew) hnLastTry, hips]
  rw [keptEntries, forall_entryAt_append, hlength]
  refine and_congr_right fun _ => and_congr ?_ ?_
  · refine forall_congr' fun n => forall_congr' fun info => forall_congr' fun hentry => ?_
    obtain ⟨i, -, hi⟩ := entryAt_eq_some.mp hentry
    exact entryLaid_new (hread.new info (mem_of_getElem? hi))
  · refine forall_congr' fun n => ?_
    constructor
    · intro h info hentry
      refine entryLaid_tried.mp (h (asTried info) ?_)
      rw [entryAt_map, hentry, map_some]
    · intro h info hentry
      rw [entryAt_map] at hentry
      obtain ⟨x, hx, rfl⟩ := map_eq_some_iff.mp hentry
      exact entryLaid_tried.mpr (h x hx)

theorem checked_random (hread : FileRead file)
    (hvRandom : am.vRandom = (beforeBuckets env file).vRandom)
    (hsame : am.nNew = (beforeBuckets env file).nNew)
    (hsame' : am.nTried = (beforeBuckets env file).nTried) (hchecked : TablesChecked am) :
    0 ≤ file.nNew ∧ 0 ≤ file.nTried := by
  have hrandom := hchecked.random
  have hcounts := beforeBuckets_nTried env file
  rw [hvRandom, hsame, (beforeBuckets_same env file).2] at hrandom
  rw [hread.vNewInfo, hread.vTriedInfo] at hcounts
  omega

/-- The tables of a file with at most as many buckets as there are pass the check if and only if
the file is as it has to be. -/
theorem ofFile_checked_iff (hread : FileRead file)
    (hnUBuckets : file.nUBuckets ≤ ADDRMAN_NEW_BUCKET_COUNT) :
    ∃ am, ofFile env file = some am ∧ (am.check = 0 ↔ FileOk env file) := by
  have hlength : file.vBuckets.length ≤ ADDRMAN_NEW_BUCKET_COUNT := by
    rw [hread.vBuckets]
    omega
  refine ⟨_, (ofFile_eq env file).trans (if_pos hlength), ?_⟩
  rw [check_eq_zero_iff]
  obtain ⟨⟨-, hnNew, hnTried⟩, hvRandom⟩ := restoreIndexes_rest file.nUBuckets
    (references 0 file.vBuckets) (beforeBuckets env file)
  by_cases hcounts : 0 ≤ file.nNew ∧ 0 ≤ file.nTried
  swap
  · refine iff_of_false (fun hchecked => hcounts ?_) fun hok => hcounts ⟨hok.nNew, hok.nTried⟩
    exact checked_random hread hvRandom hnNew hnTried hchecked
  have hlaid := @beforeBuckets_laid env file hread hcounts.1
  have hnews : (file.vNewInfo.length : ℤ) = file.nNew := by
    rw [hread.vNewInfo, Int.toNat_of_nonneg hcounts.1]
  have hentries : ((keptEntries env file).length : ℤ) =
      file.nNew + (keptTried env file.vTriedInfo).length := by
    rw [keptEntries, length_append, length_map, Nat.cast_add, hnews]
  by_cases hknown : ∀ reference ∈ references 0 file.vBuckets,
      ∃ info, entryAt (keptEntries env file) reference.2 = some info
  swap
  · -- An index without an entry makes one that has no place in `vRandom`.
    push Not at hknown
    obtain ⟨reference, hmem, hnone⟩ := hknown
    have hnone' : entryAt (keptEntries env file) reference.2 = none :=
      eq_none_iff_forall_ne_some.mpr hnone
    refine iff_of_false (fun hchecked => ?_) fun hok => ?_
    · obtain ⟨info, hlookup, hpos⟩ := @restoreIndexes_unknown file.nUBuckets _ _ _ hmem
        (by rw [hlaid.lookup, hnone', map_none])
      have hnRandomPos := (hchecked.entries _ info hlookup).nRandomPos
      omega
    · obtain ⟨hnonneg, hlt⟩ := hok.indices reference hmem
      obtain ⟨info, hinfo⟩ := exists_entryAt.mpr ⟨hnonneg, hentries ▸ hlt⟩
      exact hnone info hinfo
  have hindices : ∀ reference ∈ references 0 file.vBuckets, 0 ≤ reference.2 ∧
      reference.2 < file.nNew + (keptTried env file.vTriedInfo).length := by
    intro reference hmem
    rw [← hentries]
    exact exists_entryAt.mp (hknown reference hmem)
  by_cases hcount : file.nUBuckets = ADDRMAN_NEW_BUCKET_COUNT
  · have hnone : firstRefs env file.nUBuckets (keptEntries env file) = fun _ => [] := by
      funext n
      exact if_pos hcount
    rw [hnone] at hlaid
    rw [checked_iff_entries hread hcounts.1 hcounts.2 (restoreIndexes_laid hcount hlaid hknown)
      hnNew hnTried]
    constructor
    · rintro ⟨haddresses, hnew, htried⟩
      refine ⟨hcounts.1, hcounts.2, hnUBuckets, haddresses, fun info hinfo => ?_,
        fun info hinfo => ?_, hindices, fun _ => ⟨fun reference hmem => ?_, fun n hpos hlt => ?_⟩⟩
      · obtain ⟨n, hn⟩ := exists_index hinfo
        exact (hnew n info hn).1
      · obtain ⟨n, hn⟩ := exists_index hinfo
        exact (htried n info hn).1
      · by_contra hge
        obtain ⟨info, hinfo⟩ : ∃ info, entryAt (keptTried env file.vTriedInfo)
            (reference.2 - file.nNew) = some info := by
          have hrange := hindices reference hmem
          exact exists_entryAt.mpr (by omega)
        have hnil := (htried _ info hinfo).2
        rw [add_sub_cancel, take_eq_nil_iff, or_iff_right (by decide)] at hnil
        have hin : reference.1 ∈ bucketsOf _ reference.2 := mem_bucketsOf.mpr hmem
        rw [hnil] at hin
        exact not_mem_nil hin
      · obtain ⟨info, hinfo⟩ := exists_entryAt.mpr ⟨hpos, hnews ▸ hlt⟩
        obtain ⟨-, hne, -, hnodup⟩ := hnew n info hinfo
        exact ⟨fun hnil => hne (by rw [hnil]; rfl), hnodup⟩
    · intro hok
      obtain ⟨hlow, hbuckets⟩ := hok.buckets hcount
      refine ⟨hok.addresses, fun n info hentry => ?_, fun n info hentry => ?_⟩
      · obtain ⟨hpos, hlt⟩ := exists_entryAt.mp ⟨info, hentry⟩
        obtain ⟨hne, hnodup⟩ := hbuckets n hpos (hnews ▸ hlt)
        refine ⟨hok.new info (mem_of_entryAt hentry), fun hnil => ?_, ?_, hnodup⟩
        · rw [take_eq_nil_iff, or_iff_right (by decide)] at hnil
          exact hne hnil
        · rw [length_take]
          exact Nat.min_le_left 4 _
      · have hnil : bucketsOf (references 0 file.vBuckets) (file.nNew + n) = [] := by
          rw [eq_nil_iff_forall_not_mem]
          intro b hb
          have hrange := hlow _ (mem_bucketsOf.mp hb)
          have hpos := (exists_entryAt.mp ⟨info, hentry⟩).1
          omega
        exact ⟨hok.tried info (mem_of_entryAt hentry), by rw [hnil]; rfl⟩
  · have hall : ∀ reference ∈ references 0 file.vBuckets,
        ∃ info, (beforeBuckets env file).mapInfo.lookup reference.2 = some info := by
      intro reference hmem
      obtain ⟨info, hinfo⟩ := hknown reference hmem
      rw [hlaid.lookup, hinfo]
      exact ⟨_, rfl⟩
    obtain ⟨hfirst, hlast⟩ := forall_entryAt_append.mp
      fun n info (h : entryAt (keptEntries env file) n = some info) => firstRefs_of hcount h
    rw [restoreIndexes_unused hcount hall,
      checked_iff_entries hread hcounts.1 hcounts.2 hlaid rfl rfl]
    constructor
    · rintro ⟨haddresses, hnew, htried⟩
      refine ⟨hcounts.1, hcounts.2, hnUBuckets, haddresses, fun info hinfo => ?_,
        fun info hinfo => ?_, hindices, fun hsame => absurd hsame hcount⟩
      · obtain ⟨n, hn⟩ := exists_index hinfo
        exact (hnew n info hn).1
      · obtain ⟨n, hn⟩ := exists_index hinfo
        exact (htried n info hn).1
    · intro hok
      refine ⟨hok.addresses, fun n info hentry => ?_, fun n info hentry => ?_⟩
      · have hrefs := hfirst n info hentry
        rw [(hread.new info (mem_of_entryAt hentry)).fInTried] at hrefs
        rw [hrefs]
        exact ⟨hok.new info (mem_of_entryAt hentry), cons_ne_nil _ _, Nat.le_add_left 1 3,
          nodup_singleton _⟩
      · have hrefs := hlast n (asTried info) (by rw [entryAt_map, hentry, map_some])
        rw [hnews] at hrefs
        exact ⟨hok.tried info (mem_of_entryAt hentry), hrefs.trans (if_pos rfl)⟩

end Files

/-- No bucket outside the tables is touched, and the check passes on what is left. -/
def LoadsSafely : LoadResult → Prop
  | .throws => True
  | .outside => False
  | .loaded am => am.check = 0

instance (result : LoadResult) : Decidable (LoadsSafely result) :=
  match result with
  | .throws => inferInstanceAs (Decidable True)
  | .outside => inferInstanceAs (Decidable False)
  | .loaded am => inferInstanceAs (Decidable (am.check = 0))

theorem unserialise_of_eval (h : readAddrFile.eval bytes = some (file, rest)) :
    unserialise env bytes = (ofFile (env file.nKey) file).elim .outside .loaded := by
  rw [unserialise, h]
  dsimp only
  cases ofFile (env file.nKey) file <;> rfl

theorem unserialise_outside (h : readAddrFile.eval bytes = some (file, rest))
    (hmany : (ADDRMAN_NEW_BUCKET_COUNT : ℤ) < file.nUBuckets) :
    unserialise env bytes = .outside := by
  have hlength : ¬ file.vBuckets.length ≤ ADDRMAN_NEW_BUCKET_COUNT := by
    rw [(fileRead h).vBuckets]
    omega
  rw [unserialise_of_eval h, ofFile_eq, if_neg hlength]
  rfl

theorem loadsSafely_iff (env : List UInt8 → AddrEnv) (bytes : List UInt8) :
    LoadsSafely (unserialise env bytes) ↔
      ∀ file rest, readAddrFile.eval bytes = some (file, rest) → FileOk (env file.nKey) file := by
  cases heval : readAddrFile.eval bytes with
  | none =>
    have hthrows : unserialise env bytes = .throws := by
      rw [unserialise, heval]
    rw [hthrows]
    exact iff_of_true trivial fun file rest h => nomatch h
  | some result =>
    obtain ⟨file, rest⟩ := result
    have hfile : (∀ file' rest', some (file, rest) = some (file', rest') →
        FileOk (env file'.nKey) file') ↔ FileOk (env file.nKey) file := by
      constructor
      · exact fun h => h file rest rfl
      · intro h file' rest' heq
        cases heq
        exact h
    rw [hfile]
    by_cases hmany : file.nUBuckets ≤ ADDRMAN_NEW_BUCKET_COUNT
    · obtain ⟨am, ham, hcheck⟩ := @ofFile_checked_iff (env file.nKey) file (fileRead heval) hmany
      rw [unserialise_of_eval heval, ham]
      exact hcheck
    · rw [unserialise_outside heval (not_le.mp hmany)]
      exact iff_of_false (fun h => h) fun hok => hmany hok.nUBuckets

end Phoenixcoin.Analysis
