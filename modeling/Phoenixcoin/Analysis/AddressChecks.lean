import Phoenixcoin.Program.AddrFile

/-!
# What the check of the address tables accepts

`Check_` returns zero exactly for the tables whose counters, indexes and buckets agree.
-/

set_option autoImplicit false

namespace Phoenixcoin.Analysis

open Lib Program Program.AddrTables List Option

variable {am : AddrTables} {n : ℤ} {info : CAddrInfo}

/-- What the first loop wants of the entry with the id `n`. -/
structure EntryChecked (am : AddrTables) (n : ℤ) (info : CAddrInfo) : Prop where
  tried : info.fInTried = true → info.nLastSuccess ≠ 0 ∧ info.nRefCount = 0
  new : info.fInTried = false → 0 < info.nRefCount ∧ info.nRefCount ≤ 4
  address : (am.mapAddr.lookup info.ip).getD 0 = n
  nRandomPos : 0 ≤ info.nRandomPos
  position : am.vRandom[info.nRandomPos.toNat]? = some n
  nLastTry : 0 ≤ info.nLastTry
  nLastSuccess : 0 ≤ info.nLastSuccess

def refCountAt (am : AddrTables) (n : ℤ) : ℤ :=
  ((am.mapInfo.lookup n).map CAddrInfo.nRefCount).getD 0

def entriesWith (fInTried : Bool) (am : AddrTables) : List (ℤ × CAddrInfo) :=
  am.mapInfo.sortedEntries.filter fun it => it.2.fInTried = fInTried

structure TablesChecked (am : AddrTables) : Prop where
  random : (am.vRandom.length : ℤ) = am.nTried + am.nNew
  entries : ∀ n info, am.mapInfo.lookup n = some info → EntryChecked am n info
  nTried : ((entriesWith true am).length : ℤ) = am.nTried
  nNew : ((entriesWith false am).length : ℤ) = am.nNew
  nodup : am.triedIds.Nodup
  triedIds : ∀ n, n ∈ am.triedIds ↔ ∃ info, am.mapInfo.lookup n = some info ∧ info.fInTried = true
  newIds : ∀ n, (am.newIds.count n : ℤ) = refCountAt am n

/-! ## The first loop -/

def collect (acc : Finset ℤ × Table ℤ ℤ) (it : ℤ × CAddrInfo) : Finset ℤ × Table ℤ ℤ :=
  if it.2.fInTried then (insert it.1 acc.1, acc.2)
  else (acc.1, Finmap.insert it.1 it.2.nRefCount acc.2)

variable {acc : Finset ℤ × Table ℤ ℤ} {it : ℤ × CAddrInfo} {l : List (ℤ × CAddrInfo)} {c : ℤ}
  {ids : List ℤ} {mapNew : Table ℤ ℤ}

theorem checkInfo_eq_ok {acc' : Finset ℤ × Table ℤ ℤ} :
    am.checkInfo acc it = .ok acc' ↔ EntryChecked am it.1 it.2 ∧ collect acc it = acc' := by
  obtain ⟨n, info⟩ := it
  have hposition : ¬ (info.nRandomPos < 0 ∨ info.nRandomPos ≥ am.vRandom.length ∨
      am.vRandom[info.nRandomPos.toNat]? ≠ some n) ↔
      0 ≤ info.nRandomPos ∧ am.vRandom[info.nRandomPos.toNat]? = some n := by
    constructor
    · intro h
      simp only [not_or, not_lt, ge_iff_le, not_le, not_not] at h
      exact ⟨h.1, h.2.2⟩
    · rintro ⟨hpos, hget⟩
      have hlt := (List.getElem?_eq_some_iff.mp hget).1
      simp only [not_or, not_lt, ge_iff_le, not_le, not_not]
      exact ⟨hpos, by omega, hget⟩
  unfold checkInfo ADDRMAN_NEW_BUCKETS_PER_ADDRESS collect
  dsimp only
  constructor
  · intro h
    split at h; · cases h
    split at h; · cases h
    split at h; · cases h
    split at h; · cases h
    split at h; · cases h
    split at h; · cases h
    split at h; · cases h
    split at h; · cases h
    next h1 h2 h3 h4 h5 h6 h7 h8 =>
    obtain ⟨hpos, hget⟩ := hposition.mp h6
    refine ⟨⟨fun htried => ?_, fun hnew => ?_, not_not.mp h5, hpos, hget, not_lt.mp h7,
      not_lt.mp h8⟩, Except.ok.inj h⟩
    · exact ⟨fun hzero => h1 ⟨htried, hzero⟩, by_contra fun hne => h2 ⟨htried, hne⟩⟩
    · simp only [hnew, Bool.false_eq_true, not_false_eq_true, true_and, not_or] at h3 h4
      omega
  · rintro ⟨hentry, rfl⟩
    rw [if_neg fun h => (hentry.tried h.1).1 h.2, if_neg fun h => h.2 (hentry.tried h.1).2,
      if_neg, if_neg, if_neg (not_not.mpr hentry.address),
      if_neg (hposition.mpr ⟨hentry.nRandomPos, hentry.position⟩),
      if_neg (not_lt.mpr hentry.nLastTry), if_neg (not_lt.mpr hentry.nLastSuccess)]
    · rintro ⟨hnew, hzero⟩
      have hpos := (hentry.new (by simpa using hnew)).1
      omega
    · rintro ⟨hnew, hrange⟩
      obtain ⟨hpos, hle⟩ := hentry.new (by simpa using hnew)
      omega

theorem mem_collected :
    n ∈ (l.foldl collect acc).1 ↔ n ∈ acc.1 ∨ ∃ info, (n, info) ∈ l ∧ info.fInTried = true := by
  induction l generalizing acc with
  | nil => simp
  | cons it l ih =>
    obtain ⟨m, x⟩ := it
    rw [foldl_cons, ih]
    simp only [mem_cons, Prod.mk.injEq]
    by_cases htried : x.fInTried
    · have hcollect : collect acc (m, x) = (insert m acc.1, acc.2) := if_pos htried
      rw [hcollect, Finset.mem_insert]
      constructor
      · rintro ((rfl | hacc) | ⟨info, hmem, hinfo⟩)
        · exact Or.inr ⟨x, Or.inl ⟨rfl, rfl⟩, htried⟩
        · exact Or.inl hacc
        · exact Or.inr ⟨info, Or.inr hmem, hinfo⟩
      · rintro (hacc | ⟨info, ⟨rfl, -⟩ | hmem, hinfo⟩)
        · exact Or.inl (Or.inr hacc)
        · exact Or.inl (Or.inl rfl)
        · exact Or.inr ⟨info, hmem, hinfo⟩
    · have hcollect : (collect acc (m, x)).1 = acc.1 := by
        rw [collect, if_neg htried]
      rw [hcollect]
      constructor
      · rintro (hacc | ⟨info, hmem, hinfo⟩)
        · exact Or.inl hacc
        · exact Or.inr ⟨info, Or.inr hmem, hinfo⟩
      · rintro (hacc | ⟨info, ⟨-, rfl⟩ | hmem, hinfo⟩)
        · exact Or.inl hacc
        · exact absurd hinfo htried
        · exact Or.inr ⟨info, hmem, hinfo⟩

theorem lookup_collected (hnodup : (l.map Prod.fst).Nodup)
    (hacc : ∀ n ∈ l.map Prod.fst, acc.2.lookup n = none) :
    (l.foldl collect acc).2.lookup n = some c ↔ acc.2.lookup n = some c ∨
      ∃ info, (n, info) ∈ l ∧ info.fInTried = false ∧ info.nRefCount = c := by
  induction l generalizing acc with
  | nil => simp
  | cons it l ih =>
    obtain ⟨m, x⟩ := it
    rw [map_cons, nodup_cons] at hnodup
    have hold (k : ℤ) (hk : k ∈ l.map Prod.fst) : acc.2.lookup k = none :=
      hacc k (mem_cons_of_mem _ hk)
    rw [foldl_cons]
    simp only [mem_cons, Prod.mk.injEq]
    by_cases htried : x.fInTried
    · have hcollect : (collect acc (m, x)).2 = acc.2 := by
        rw [collect, if_pos htried]
      rw [ih hnodup.2 (hcollect ▸ hold), hcollect]
      constructor
      · rintro (h | ⟨info, hmem, hinfo⟩)
        · exact Or.inl h
        · exact Or.inr ⟨info, Or.inr hmem, hinfo⟩
      · rintro (h | ⟨info, ⟨-, rfl⟩ | hmem, hinfo⟩)
        · exact Or.inl h
        · rw [htried] at hinfo
          cases hinfo.1
        · exact Or.inr ⟨info, hmem, hinfo⟩
    · have hcollect : collect acc (m, x) = (acc.1, Finmap.insert m x.nRefCount acc.2) :=
        if_neg htried
      have hfresh : acc.2.lookup m = none := hacc m mem_cons_self
      rw [hcollect, ih hnodup.2, Table.lookup_insert_ite]
      · constructor
        · rintro (h | ⟨info, hmem, hinfo⟩)
          · split at h
            · next heq =>
              exact Or.inr ⟨x, Or.inl ⟨heq, rfl⟩, by simpa using htried, Option.some.inj h⟩
            · exact Or.inl h
          · exact Or.inr ⟨info, Or.inr hmem, hinfo⟩
        · rintro (h | ⟨info, ⟨rfl, rfl⟩ | hmem, hinfo⟩)
          · left
            rw [if_neg]
            · exact h
            · rintro rfl
              rw [hfresh] at h
              cases h
          · left
            rw [if_pos rfl, hinfo.2]
          · exact Or.inr ⟨info, hmem, hinfo⟩
      · intro k hk
        rw [Table.lookup_insert_ite, if_neg, hold k hk]
        rintro rfl
        exact hnodup.1 hk

/-! ## The loops over the buckets -/

theorem checkTried_eq_ok {setTried : Finset ℤ} :
    ids.foldlM checkTried setTried = .ok ∅ ↔ ids.Nodup ∧ ids.toFinset = setTried := by
  induction ids generalizing setTried with
  | nil =>
    constructor
    · intro h
      cases h
      exact ⟨nodup_nil, rfl⟩
    · rintro ⟨-, rfl⟩
      rfl
  | cons n ids ih =>
    rw [foldlM_cons_eq_ok, nodup_cons, toFinset_cons]
    constructor
    · rintro ⟨m, hm, hrest⟩
      unfold checkTried at hm
      split at hm
      · cases hm
      · next hmem =>
        obtain ⟨hnodup, hset⟩ := ih.mp hrest
        rw [← Except.ok.inj hm] at hset
        refine ⟨⟨?_, hnodup⟩, ?_⟩
        · rw [← List.mem_toFinset, hset]
          exact Finset.notMem_erase n setTried
        · rw [hset]
          exact Finset.insert_erase (not_not.mp hmem)
    · rintro ⟨⟨hn, hnodup⟩, rfl⟩
      rw [← List.mem_toFinset] at hn
      refine ⟨ids.toFinset, ?_, ih.mpr ⟨hnodup, rfl⟩⟩
      rw [checkTried, if_neg (not_not.mpr (Finset.mem_insert_self n _)), Finset.erase_insert hn]

def countAt (mapNew : Table ℤ ℤ) (n : ℤ) : ℤ := (mapNew.lookup n).getD 0

theorem checkNew_eq_ok {mapNew' : Table ℤ ℤ} (hpos : ∀ n c, mapNew.lookup n = some c → 0 < c) :
    checkNew mapNew n = .ok mapNew' → (∀ n c, mapNew'.lookup n = some c → 0 < c) ∧
      ∀ m, countAt mapNew m = countAt mapNew' m + if m = n then 1 else 0 := by
  intro h
  unfold checkNew at h
  cases hlookup : mapNew.lookup n with
  | none =>
    rw [hlookup] at h
    cases h
  | some c =>
    rw [hlookup] at h
    have hc := hpos n c hlookup
    have hmapNew := Except.ok.inj h
    have hafter (m : ℤ) : mapNew'.lookup m =
        if m = n then (if c - 1 = 0 then none else some (c - 1)) else mapNew.lookup m := by
      rw [← hmapNew]
      by_cases hzero : c - 1 = 0
      · rw [if_pos hzero, if_pos hzero, Table.lookup_erase_ite]
      · rw [if_neg hzero, if_neg hzero, Table.lookup_insert_ite]
    constructor
    · intro m c' hm
      rw [hafter] at hm
      split at hm
      · split at hm
        · cases hm
        · next hzero =>
          cases hm
          omega
      · exact hpos m c' hm
    · intro m
      unfold countAt
      rw [hafter]
      by_cases hm : m = n
      · rw [if_pos hm, if_pos hm, hm, hlookup]
        split
        · next hzero =>
          simp only [getD_some, getD_none]
          omega
        · simp only [getD_some]
          omega
      · rw [if_neg hm, if_neg hm, Int.add_zero]

theorem checkNews_eq_ok (hpos : ∀ n c, mapNew.lookup n = some c → 0 < c) :
    ids.foldlM checkNew mapNew = .ok ∅ ↔ ∀ n, (ids.count n : ℤ) = countAt mapNew n := by
  induction ids generalizing mapNew with
  | nil =>
    constructor
    · intro h n
      cases h
      rfl
    · intro h
      have hempty : mapNew = ∅ := by
        apply Finmap.ext_lookup
        intro n
        cases hlookup : mapNew.lookup n with
        | none => rfl
        | some c =>
          have hc := hpos n c hlookup
          have hn := h n
          rw [countAt, hlookup] at hn
          simp only [count_nil, getD_some] at hn
          omega
      rw [hempty]
      rfl
  | cons n ids ih =>
    rw [foldlM_cons_eq_ok]
    have hcount (m : ℤ) : ((n :: ids).count m : ℤ) = ids.count m + if m = n then 1 else 0 := by
      by_cases hm : n = m
      · simp [hm]
      · simp [hm, Ne.symm hm]
    constructor
    · rintro ⟨mapNew', hstep, hrest⟩ m
      obtain ⟨hpos', hcounts⟩ := checkNew_eq_ok hpos hstep
      rw [hcount, (ih hpos').mp hrest, hcounts]
    · intro h
      have hn := h n
      rw [hcount, if_pos rfl] at hn
      obtain ⟨mapNew', hstep⟩ : ∃ mapNew', checkNew mapNew n = .ok mapNew' := by
        unfold checkNew
        cases hlookup : mapNew.lookup n with
        | none =>
          rw [countAt, hlookup] at hn
          simp only [getD_none] at hn
          omega
        | some c => exact ⟨_, rfl⟩
      obtain ⟨hpos', hcounts⟩ := checkNew_eq_ok hpos hstep
      refine ⟨mapNew', hstep, (ih hpos').mpr fun m => ?_⟩
      have hm := h m
      rw [hcount, hcounts] at hm
      omega

/-! ## The check -/

theorem nodup_ids (am : AddrTables) : (am.mapInfo.sortedEntries.map Prod.fst).Nodup := by
  rw [Table.map_fst_sortedEntries]
  exact Table.nodup_sortedKeys am.mapInfo

theorem mem_entriesWith {fInTried : Bool} :
    it ∈ entriesWith fInTried am ↔
      am.mapInfo.lookup it.1 = some it.2 ∧ it.2.fInTried = fInTried := by
  rw [entriesWith, mem_filter, Table.mem_sortedEntries, decide_eq_true_iff]

theorem nodup_entriesWith (fInTried : Bool) (am : AddrTables) :
    ((entriesWith fInTried am).map Prod.fst).Nodup :=
  (nodup_ids am).sublist (List.filter_sublist.map _)

def collectedSets (am : AddrTables) : Finset ℤ × Table ℤ ℤ :=
  am.mapInfo.sortedEntries.foldl collect (∅, ∅)

theorem mem_collected_fst :
    n ∈ (collectedSets am).1 ↔ ∃ info, am.mapInfo.lookup n = some info ∧ info.fInTried = true := by
  rw [collectedSets, mem_collected]
  simp [Table.mem_sortedEntries]

theorem lookup_collected_snd :
    (collectedSets am).2.lookup n = some c ↔
      ∃ info, am.mapInfo.lookup n = some info ∧ info.fInTried = false ∧ info.nRefCount = c := by
  rw [collectedSets, lookup_collected (nodup_ids am) fun n _ => Finmap.lookup_empty n]
  simp [Table.mem_sortedEntries]

theorem card_collected_fst (am : AddrTables) :
    (collectedSets am).1.card = (entriesWith true am).length := by
  have hset : (collectedSets am).1 = ((entriesWith true am).map Prod.fst).toFinset := by
    ext n
    rw [mem_collected_fst, List.mem_toFinset, List.mem_map]
    constructor
    · rintro ⟨info, hinfo⟩
      exact ⟨(n, info), mem_entriesWith.mpr hinfo, rfl⟩
    · rintro ⟨it, hit, rfl⟩
      exact ⟨it.2, mem_entriesWith.mp hit⟩
  rw [hset, toFinset_card_of_nodup (nodup_entriesWith true am), length_map]

theorem card_collected_snd (am : AddrTables) :
    (collectedSets am).2.keys.card = (entriesWith false am).length := by
  have hset : (collectedSets am).2.keys = ((entriesWith false am).map Prod.fst).toFinset := by
    ext n
    rw [Finmap.mem_keys, ← Finmap.lookup_isSome, isSome_iff_exists, List.mem_toFinset, List.mem_map]
    constructor
    · rintro ⟨c, hc⟩
      obtain ⟨info, hlookup, hnew, -⟩ := lookup_collected_snd.mp hc
      exact ⟨(n, info), mem_entriesWith.mpr ⟨hlookup, hnew⟩, rfl⟩
    · rintro ⟨it, hit, rfl⟩
      obtain ⟨hlookup, hnew⟩ := mem_entriesWith.mp hit
      exact ⟨_, lookup_collected_snd.mpr ⟨it.2, hlookup, hnew, rfl⟩⟩
  rw [hset, toFinset_card_of_nodup (nodup_entriesWith false am), length_map]

section Entries

variable (hentries : ∀ n info, am.mapInfo.lookup n = some info → EntryChecked am n info)

include hentries

theorem collected_pos {c : ℤ} (h : (collectedSets am).2.lookup n = some c) : 0 < c := by
  obtain ⟨info, hlookup, hnew, rfl⟩ := lookup_collected_snd.mp h
  exact ((hentries n info hlookup).new hnew).1

theorem countAt_collected (n : ℤ) : countAt (collectedSets am).2 n = refCountAt am n := by
  unfold countAt refCountAt
  cases hlookup : am.mapInfo.lookup n with
  | none =>
    have hnone : (collectedSets am).2.lookup n = none := by
      rw [eq_none_iff_forall_ne_some]
      intro c hc
      obtain ⟨info, hinfo, -⟩ := lookup_collected_snd.mp hc
      rw [hlookup] at hinfo
      cases hinfo
    rw [hnone]
    rfl
  | some info =>
    cases htried : info.fInTried with
    | true =>
      have hnone : (collectedSets am).2.lookup n = none := by
        rw [eq_none_iff_forall_ne_some]
        intro c hc
        obtain ⟨info', hinfo', hnew, -⟩ := lookup_collected_snd.mp hc
        cases hlookup.symm.trans hinfo'
        rw [htried] at hnew
        cases hnew
      rw [hnone]
      exact ((hentries n info hlookup).tried htried).2.symm
    | false =>
      rw [lookup_collected_snd.mpr ⟨info, hlookup, htried, rfl⟩]
      rfl

end Entries

theorem checks_eq_ok : am.checks = .ok () ↔ TablesChecked am := by
  have hfirst (acc : Finset ℤ × Table ℤ ℤ) :
      am.mapInfo.sortedEntries.foldlM am.checkInfo (∅, ∅) = .ok acc ↔
        (∀ it ∈ am.mapInfo.sortedEntries, EntryChecked am it.1 it.2) ∧ collectedSets am = acc :=
    foldlM_eq_ok_iff (p := fun it => EntryChecked am it.1 it.2) (g := collect)
      fun _ _ _ => checkInfo_eq_ok
  unfold checks
  constructor
  · intro h
    split at h
    · cases h
    next hrandom =>
    obtain ⟨acc, hacc, h⟩ := except_bind_eq_ok.mp h
    obtain ⟨hall, rfl⟩ := (hfirst acc).mp hacc
    have hentries : ∀ n info, am.mapInfo.lookup n = some info → EntryChecked am n info :=
      fun n info hlookup => hall (n, info) (Table.mem_sortedEntries.mpr hlookup)
    dsimp only at h
    split at h
    · cases h
    next hnTried =>
    split at h
    · cases h
    next hnNew =>
    obtain ⟨setTried, htried, h⟩ := except_bind_eq_ok.mp h
    obtain ⟨mapNew, hnew, h⟩ := except_bind_eq_ok.mp h
    split at h
    · cases h
    next hsetTried =>
    split at h
    · cases h
    next hmapNew =>
    rw [not_not.mp hsetTried] at htried
    rw [not_not.mp hmapNew] at hnew
    obtain ⟨hnodup, hset⟩ := checkTried_eq_ok.mp htried
    refine ⟨not_not.mp hrandom, hentries, ?_, ?_, hnodup, fun n => ?_, fun n => ?_⟩
    · rw [← card_collected_fst]
      exact not_not.mp hnTried
    · rw [← card_collected_snd]
      exact not_not.mp hnNew
    · rw [← List.mem_toFinset, hset, mem_collected_fst]
    · rw [(checkNews_eq_ok fun n c => collected_pos hentries).mp hnew, countAt_collected hentries]
  · intro h
    rw [if_neg (not_not.mpr h.random)]
    refine except_bind_eq_ok.mpr ⟨collectedSets am, (hfirst _).mpr ⟨fun it hit =>
      h.entries it.1 it.2 (Table.mem_sortedEntries.mp hit), rfl⟩, ?_⟩
    dsimp only
    rw [card_collected_fst, card_collected_snd, if_neg (not_not.mpr h.nTried),
      if_neg (not_not.mpr h.nNew)]
    have hset : am.triedIds.toFinset = (collectedSets am).1 := by
      ext n
      rw [List.mem_toFinset, h.triedIds, mem_collected_fst]
    refine except_bind_eq_ok.mpr ⟨∅, checkTried_eq_ok.mpr ⟨h.nodup, hset⟩,
      except_bind_eq_ok.mpr ⟨∅, ?_, rfl⟩⟩
    rw [checkNews_eq_ok fun n c => collected_pos h.entries]
    intro n
    rw [h.newIds, countAt_collected h.entries]

theorem checks_error_neg {code : ℤ} (h : am.checks = .error code) : code < 0 := by
  have hfirst : ∀ acc it code, am.checkInfo acc it = .error code → code < 0 := by
    intro acc it code h
    unfold checkInfo at h
    dsimp only at h
    split_ifs at h <;> cases h <;> decide
  have htried : ∀ setTried n code, checkTried setTried n = .error code → code < 0 := by
    intro setTried n code h
    unfold checkTried at h
    split at h
    · cases h
      decide
    · cases h
  have hnew : ∀ mapNew n code, checkNew mapNew n = .error code → code < 0 := by
    intro mapNew n code h
    unfold checkNew at h
    split at h
    · cases h
      decide
    · cases h
  unfold checks at h
  split at h
  · cases h
    decide
  rcases except_bind_eq_error.mp h with h | ⟨acc, -, h⟩
  · exact foldlM_eq_error hfirst h
  dsimp only at h
  split at h
  · cases h
    decide
  split at h
  · cases h
    decide
  rcases except_bind_eq_error.mp h with h | ⟨setTried, -, h⟩
  · exact foldlM_eq_error htried h
  rcases except_bind_eq_error.mp h with h | ⟨mapNew, -, h⟩
  · exact foldlM_eq_error hnew h
  split at h
  · cases h
    decide
  split at h
  · cases h
    decide
  cases h

/-- `Check_` returns zero for the tables that agree, and only for these. -/
theorem check_eq_zero_iff : am.check = 0 ↔ TablesChecked am := by
  rw [← checks_eq_ok]
  unfold AddrTables.check
  cases hchecks : am.checks with
  | ok _ => exact iff_of_true rfl rfl
  | error code =>
    refine iff_of_false (fun hzero => ?_) (fun h => nomatch h)
    have hneg := checks_error_neg hchecks
    dsimp only at hzero
    omega

end Phoenixcoin.Analysis
