import Mathlib.Algebra.BigOperators.Fin
import Mathlib.Data.Bool.Count
import Phoenixcoin.Analysis.AddressChecks

/-!
# The tables that reading a file lays out

The ids count from zero, the entry with an id stands at that place of `vRandom`, and each entry
has a list of the buckets that refer to it.
-/

set_option autoImplicit false

namespace Phoenixcoin.Analysis

open Lib Program Program.AddrTables List Option Function

/-- The entry with the id `n`. -/
def entryAt (entries : List CAddrInfo) (n : ℤ) : Option CAddrInfo :=
  if 0 ≤ n then entries[n.toNat]? else none

/-- Tables with these entries, where `refs` has the buckets of each. -/
structure Laid (env : AddrEnv) (entries : List CAddrInfo) (refs : ℤ → List NewBucket)
    (am : AddrTables) : Prop where
  lookup : ∀ n, am.mapInfo.lookup n = (entryAt entries n).map fun info =>
    { info with nRandomPos := n, nRefCount := (refs n).length }
  vRandom : am.vRandom = (range entries.length).map fun i : ℕ => (i : ℤ)
  address : (entries.map fun info => info.ip).Nodup →
    ∀ n info, entryAt entries n = some info → am.mapAddr.lookup info.ip = some n
  vvNew : ∀ b n, n ∈ am.vvNew b ↔ b ∈ refs n
  unknown : ∀ n, entryAt entries n = none → refs n = []
  vvTried : ∀ b n, n ∈ am.vvTried b ↔
    ∃ info, entryAt entries n = some info ∧ info.fInTried = true ∧ env.getTriedBucket info = b
  nodup : ∀ b, (am.vvTried b).Nodup
  length : ∀ b, (am.vvTried b).length =
    entries.countP fun info => info.fInTried = true ∧ env.getTriedBucket info = b

variable {env : AddrEnv} {entries : List CAddrInfo} {refs refs' : ℤ → List NewBucket}
  {am am' : AddrTables} {n : ℤ} {info : CAddrInfo}

theorem entryAt_eq_some :
    entryAt entries n = some info ↔ ∃ i : ℕ, n = i ∧ entries[i]? = some info := by
  unfold entryAt
  constructor
  · intro h
    split at h
    · next hpos => exact ⟨n.toNat, (Int.toNat_of_nonneg hpos).symm, h⟩
    · cases h
  · rintro ⟨i, rfl, hi⟩
    rw [if_pos (Int.natCast_nonneg i)]
    exact hi

theorem mem_of_entryAt (h : entryAt entries n = some info) : info ∈ entries := by
  obtain ⟨i, -, hi⟩ := entryAt_eq_some.mp h
  exact mem_of_getElem? hi

theorem exists_index (h : info ∈ entries) : ∃ n, entryAt entries n = some info := by
  obtain ⟨i, hi⟩ := mem_iff_getElem?.mp h
  exact ⟨i, entryAt_eq_some.mpr ⟨i, rfl, hi⟩⟩

theorem entryAt_map (f : CAddrInfo → CAddrInfo) (entries : List CAddrInfo) (n : ℤ) :
    entryAt (entries.map f) n = (entryAt entries n).map f := by
  unfold entryAt
  split
  · exact getElem?_map
  · rfl

theorem entryAt_length : entryAt entries entries.length = none := by
  rw [entryAt, if_pos (Int.natCast_nonneg _)]
  exact getElem?_eq_none le_rfl

theorem entryAt_append :
    entryAt (entries ++ [info]) n =
      if n = entries.length then some info else entryAt entries n := by
  unfold entryAt
  by_cases hn : n = entries.length
  · rw [if_pos hn, hn, if_pos (Int.natCast_nonneg _)]
    exact getElem?_concat_length
  · rw [if_neg hn]
    by_cases hpos : 0 ≤ n
    · rw [if_pos hpos, if_pos hpos]
      by_cases hlt : n.toNat < entries.length
      · exact getElem?_append_left hlt
      · rw [getElem?_eq_none (by rw [length_append, length_singleton]; omega),
          getElem?_eq_none (by omega)]
    · rw [if_neg hpos, if_neg hpos]

theorem forall_entryAt_append {entries' : List CAddrInfo} {p : ℤ → CAddrInfo → Prop} :
    (∀ n info, entryAt (entries ++ entries') n = some info → p n info) ↔
      (∀ n info, entryAt entries n = some info → p n info) ∧
        ∀ n info, entryAt entries' n = some info → p (entries.length + n) info := by
  simp only [entryAt_eq_some]
  constructor
  · intro h
    constructor
    · rintro n info ⟨i, rfl, hi⟩
      have hlt := (List.getElem?_eq_some_iff.mp hi).1
      exact h i info ⟨i, rfl, (getElem?_append_left hlt).trans hi⟩
    · rintro n info ⟨i, rfl, hi⟩
      refine h _ info ⟨entries.length + i, (Nat.cast_add _ _).symm, ?_⟩
      rw [getElem?_append_right (Nat.le_add_right _ _), Nat.add_sub_cancel_left]
      exact hi
  · rintro ⟨hfirst, hsecond⟩ n info ⟨i, rfl, hi⟩
    by_cases hlt : i < entries.length
    · rw [getElem?_append_left hlt] at hi
      exact hfirst i info ⟨i, rfl, hi⟩
    · rw [getElem?_append_right (by omega)] at hi
      have hp := hsecond _ info ⟨i - entries.length, rfl, hi⟩
      rwa [← Nat.cast_add, Nat.add_sub_cancel' (by omega)] at hp

theorem exists_entryAt : (∃ info, entryAt entries n = some info) ↔ 0 ≤ n ∧ n < entries.length := by
  simp only [entryAt_eq_some]
  constructor
  · rintro ⟨info, i, rfl, hi⟩
    have hlt := (List.getElem?_eq_some_iff.mp hi).1
    omega
  · rintro ⟨hpos, hlt⟩
    have hbound : n.toNat < entries.length := by omega
    exact ⟨entries[n.toNat], n.toNat, (Int.toNat_of_nonneg hpos).symm, getElem?_eq_getElem hbound⟩

theorem Laid.lookup_of (h : Laid env entries refs am) (hentry : entryAt entries n = some info) :
    am.mapInfo.lookup n = some { info with nRandomPos := n, nRefCount := (refs n).length } := by
  rw [h.lookup, hentry]
  rfl

/-- One more entry. -/
theorem Laid.extend (h : Laid env entries refs am) (info : CAddrInfo)
    (hmapInfo : am'.mapInfo = am.mapInfo.insert (entries.length : ℤ)
      { info with nRandomPos := entries.length, nRefCount := (refs' entries.length).length })
    (hmapAddr : am'.mapAddr = am.mapAddr.insert info.ip (entries.length : ℤ))
    (hvRandom : am'.vRandom = am.vRandom ++ [(entries.length : ℤ)])
    (hrefs : ∀ n : ℤ, n ≠ entries.length → refs' n = refs n)
    (hvvNew : ∀ b n, n ∈ am'.vvNew b ↔ b ∈ refs' n)
    (hvvTried : ∀ b, am'.vvTried b = if info.fInTried = true ∧ env.getTriedBucket info = b
      then am.vvTried b ++ [(entries.length : ℤ)] else am.vvTried b) :
    Laid env (entries ++ [info]) refs' am' := by
  have hold {m : ℤ} {x : CAddrInfo} (hm : entryAt entries m = some x) : m ≠ entries.length := by
    rintro rfl
    rw [entryAt_length] at hm
    cases hm
  refine ⟨fun m => ?_, ?_, fun hnodup m x hm => ?_, hvvNew, fun m hm => ?_, fun b m => ?_,
    fun b => ?_, fun b => ?_⟩
  · rw [hmapInfo, Table.lookup_insert_ite, entryAt_append]
    split
    · next hm =>
      rw [map_some, hm]
    · next hm =>
      rw [h.lookup, hrefs m hm]
  · rw [hvRandom, h.vRandom, length_append, length_singleton, range_succ, map_append]
    rfl
  · rw [map_append, nodup_append] at hnodup
    rw [hmapAddr, Table.lookup_insert_ite]
    rw [entryAt_append] at hm
    split at hm
    · next hlast =>
      cases hm
      rw [if_pos rfl, hlast]
    · rw [if_neg, h.address hnodup.1 m x hm]
      obtain ⟨i, -, hi⟩ := entryAt_eq_some.mp hm
      exact hnodup.2.2 x.ip (mem_map_of_mem (mem_of_getElem? hi)) info.ip
        (mem_singleton.mpr rfl)
  · rw [entryAt_append] at hm
    split at hm
    · cases hm
    · next hlast =>
      rw [hrefs m hlast]
      exact h.unknown m hm
  · have hmem : m ∈ am'.vvTried b ↔ m ∈ am.vvTried b ∨
        (info.fInTried = true ∧ env.getTriedBucket info = b) ∧ m = entries.length := by
      rw [hvvTried]
      split
      · next hin => simp only [mem_append, mem_singleton, hin, true_and]
      · next hout => simp only [hout, false_and, or_false]
    rw [hmem, h.vvTried]
    constructor
    · rintro (⟨x, hx, hin⟩ | ⟨hin, hm⟩)
      · exact ⟨x, by rw [entryAt_append, if_neg (hold hx), hx], hin⟩
      · exact ⟨info, by rw [entryAt_append, if_pos hm], hin⟩
    · rintro ⟨x, hx, hin⟩
      rw [entryAt_append] at hx
      split at hx
      · next hm =>
        cases hx
        exact Or.inr ⟨hin, hm⟩
      · exact Or.inl ⟨x, hx, hin⟩
  · rw [hvvTried]
    split
    · rw [nodup_append]
      refine ⟨h.nodup b, nodup_singleton _, fun m hm m' hm' => ?_⟩
      obtain ⟨x, hx, -⟩ := (h.vvTried b m).mp hm
      rw [mem_singleton.mp hm']
      exact hold hx
    · exact h.nodup b
  · rw [hvvTried, countP_append, countP_singleton, ← h.length b]
    split
    · next hin => rw [length_append, length_singleton, if_pos (decide_eq_true hin)]
    · next hout => rw [if_neg (by simpa using hout), Nat.add_zero]

theorem Laid.counters (h : Laid env entries refs am) (nIdCount nTried : ℤ) :
    Laid env entries refs { am with nIdCount := nIdCount, nTried := nTried } :=
  ⟨h.lookup, h.vRandom, h.address, h.vvNew, h.unknown, h.vvTried, h.nodup, h.length⟩

theorem mem_insertNew {b b' : NewBucket} {m : ℤ} :
    m ∈ (am.insertNew b n).vvNew b' ↔ b' = b ∧ m = n ∨ m ∈ am.vvNew b' := by
  show m ∈ update am.vvNew b (insert n (am.vvNew b)) b' ↔ _
  by_cases hb : b' = b
  · rw [hb, update_self, Finset.mem_insert, and_iff_right rfl]
  · rw [update_of_ne hb, or_iff_right fun h => hb h.1]

/-- One more reference. -/
theorem Laid.refer (h : Laid env entries refs am) {b : NewBucket}
    (hentry : entryAt entries n = some info) :
    Laid env entries (update refs n (refs n ++ [b])) ((am.setInfo n
        { am.infoAt n with nRefCount := (am.infoAt n).nRefCount + 1 }).insertNew b n) := by
  have hinfoAt : am.infoAt n = { info with nRandomPos := n, nRefCount := (refs n).length } := by
    rw [infoAt, h.lookup_of hentry]
    rfl
  refine ⟨fun m => ?_, h.vRandom, h.address, fun b' m => ?_, fun m hm => ?_, h.vvTried, h.nodup,
    h.length⟩
  · show (Finmap.insert n _ am.mapInfo).lookup m = _
    rw [Table.lookup_insert_ite]
    by_cases hm : m = n
    · rw [if_pos hm, hm, hentry, map_some, update_self, hinfoAt,
        length_append, length_singleton, Nat.cast_add, Nat.cast_one]
    · rw [if_neg hm, h.lookup, update_of_ne hm]
  · rw [mem_insertNew]
    show b' = b ∧ m = n ∨ m ∈ am.vvNew b' ↔ _
    by_cases hm : m = n
    · rw [hm, update_self, mem_append, mem_singleton, ← h.vvNew, and_iff_left rfl, or_comm]
    · rw [update_of_ne hm, ← h.vvNew, or_iff_right fun hin => hm hin.2]
  · rw [update_of_ne]
    · exact h.unknown m hm
    · rintro rfl
      rw [hentry] at hm
      cases hm

/-! ## When the check accepts them -/

theorem filterMap_range_getElem? {β : Type} (l : List β) :
    (range l.length).filterMap (fun i => l[i]?) = l := by
  induction l using reverseRecOn with
  | nil => rfl
  | append_singleton l x ih =>
    rw [length_append, length_singleton, range_succ, filterMap_append]
    have hold : (range l.length).filterMap (fun i => (l ++ [x])[i]?) =
        (range l.length).filterMap (fun i => l[i]?) := by
      apply filterMap_congr
      intro i hi
      exact getElem?_append_left (mem_range.mp hi)
    rw [hold, ih]
    simp

theorem Laid.sortedKeys_eq (h : Laid env entries refs am) :
    am.mapInfo.sortedKeys = (List.range entries.length).map fun i : ℕ => (i : ℤ) := by
  have hmem (m : ℤ) : m ∈ am.mapInfo.sortedKeys ↔
      m ∈ (List.range entries.length).map fun i : ℕ => (i : ℤ) := by
    rw [Table.mem_sortedKeys, h.lookup, isSome_map, isSome_iff_exists, List.mem_map]
    constructor
    · rintro ⟨info, hinfo⟩
      obtain ⟨i, rfl, hi⟩ := entryAt_eq_some.mp hinfo
      exact ⟨i, mem_range.mpr (List.getElem?_eq_some_iff.mp hi).1, rfl⟩
    · rintro ⟨i, hi, rfl⟩
      have hlt := mem_range.mp hi
      exact ⟨entries[i], entryAt_eq_some.mpr ⟨i, rfl, getElem?_eq_getElem hlt⟩⟩
  refine ((perm_ext_iff_of_nodup (Table.nodup_sortedKeys _) ?_).mpr hmem).eq_of_pairwise
    (fun _ _ _ _ => le_antisymm) (Table.pairwise_sortedKeys _) ?_
  · exact List.nodup_range.map Nat.cast_injective
  · rw [pairwise_map]
    exact List.pairwise_le_range.imp fun hle => Int.ofNat_le.mpr hle

/-- What the entries say about themselves, apart from their place and their references. -/
theorem Laid.map_sortedEntries (h : Laid env entries refs am) {β : Type} (g : CAddrInfo → β)
    (hg : ∀ info p c, g { info with nRandomPos := p, nRefCount := c } = g info) :
    am.mapInfo.sortedEntries.map (fun it => g it.2) = entries.map g := by
  have hcomp : am.mapInfo.sortedEntries.map (fun it => g it.2) =
      (am.mapInfo.sortedEntries.map Prod.snd).map g := by
    rw [List.map_map]
    rfl
  rw [hcomp, Table.map_snd_sortedEntries, map_filterMap, h.sortedKeys_eq, filterMap_map]
  conv_rhs => rw [← filterMap_range_getElem? (entries.map g), length_map]
  apply filterMap_congr
  intro i hi
  dsimp only [comp_apply]
  rw [h.lookup, getElem?_map]
  rw [entryAt, Int.toNat_natCast]
  cases entries[i]? with
  | none => rfl
  | some info => exact congrArg some (hg info _ _)

theorem Laid.length_entriesWith (h : Laid env entries refs am) (fInTried : Bool) :
    (entriesWith fInTried am).length = (entries.map CAddrInfo.fInTried).count fInTried := by
  unfold entriesWith
  rw [← h.map_sortedEntries CAddrInfo.fInTried fun _ _ _ => rfl, ← countP_eq_length_filter,
    count_eq_countP, countP_map]
  rfl

theorem mem_idsIn {b : NewBucket} : n ∈ am.idsIn b ↔ n ∈ am.vvNew b := Finset.mem_sort _

theorem nodup_idsIn (am : AddrTables) (b : NewBucket) : (am.idsIn b).Nodup :=
  Finset.sort_nodup _ _

theorem count_newIds_tables (am : AddrTables) (n : ℤ) :
    am.newIds.count n = (Finset.univ.filter fun b => n ∈ am.vvNew b).card := by
  rw [AddrTables.newIds, count_flatMap, Finset.card_filter]
  refine congrArg sum (map_congr_left fun b _ => ?_)
  rw [comp_apply, Nodup.count (nodup_idsIn am b)]
  exact if_congr mem_idsIn rfl rfl

theorem Laid.count_newIds (h : Laid env entries refs am) (n : ℤ) :
    am.newIds.count n = (refs n).toFinset.card := by
  rw [count_newIds_tables]
  congr 1
  ext b
  rw [Finset.mem_filter, h.vvNew]
  simp

theorem Laid.mem_triedIds (h : Laid env entries refs am) :
    n ∈ am.triedIds ↔ ∃ info, entryAt entries n = some info ∧ info.fInTried = true := by
  rw [AddrTables.triedIds, mem_flatMap]
  constructor
  · rintro ⟨b, -, hb⟩
    obtain ⟨info, hinfo, htried, -⟩ := (h.vvTried b n).mp hb
    exact ⟨info, hinfo, htried⟩
  · rintro ⟨info, hinfo, htried⟩
    exact ⟨env.getTriedBucket info, mem_finRange _, (h.vvTried _ n).mpr ⟨info, hinfo, htried, rfl⟩⟩

theorem Laid.nodup_triedIds (h : Laid env entries refs am) : am.triedIds.Nodup := by
  rw [AddrTables.triedIds, nodup_flatMap]
  refine ⟨fun b _ => h.nodup b, (nodup_finRange _).imp fun {b b'} hne => ?_⟩
  intro m hm hm'
  obtain ⟨info, hinfo, -, hb⟩ := (h.vvTried b m).mp hm
  obtain ⟨info', hinfo', -, hb'⟩ := (h.vvTried b' m).mp hm'
  cases hinfo.symm.trans hinfo'
  exact hne (hb.symm.trans hb')

/-- What the check wants of the entry with the id `n`. -/
structure EntryLaid (refs : ℤ → List NewBucket) (n : ℤ) (info : CAddrInfo) : Prop where
  nLastSuccess : 0 ≤ info.nLastSuccess
  tried : info.fInTried = true → info.nLastSuccess ≠ 0 ∧ refs n = []
  new : info.fInTried = false → refs n ≠ [] ∧ (refs n).length ≤ 4
  nodup : (refs n).Nodup

theorem Laid.checked_iff (h : Laid env entries refs am)
    (hnTried : am.nTried = (entries.map CAddrInfo.fInTried).count true)
    (hnNew : am.nNew = (entries.map CAddrInfo.fInTried).count false)
    (hnLastTry : ∀ info ∈ entries, info.nLastTry = 0) :
    TablesChecked am ↔ (entries.map fun info => info.ip).Nodup ∧
      ∀ n info, entryAt entries n = some info → EntryLaid refs n info := by
  constructor
  · intro hchecked
    constructor
    · rw [nodup_iff_getElem?_ne_getElem?]
      intro i j hij hj heq
      rw [length_map] at hj
      have hi := hij.trans hj
      rw [getElem?_map, getElem?_map, getElem?_eq_getElem hj, getElem?_eq_getElem hi] at heq
      have hi' := hchecked.entries i _ (h.lookup_of (entryAt_eq_some.mpr
        ⟨i, rfl, getElem?_eq_getElem hi⟩))
      have hj' := hchecked.entries j _ (h.lookup_of (entryAt_eq_some.mpr
        ⟨j, rfl, getElem?_eq_getElem hj⟩))
      have hsame : entries[i].ip = entries[j].ip := Option.some.inj heq
      have haddress := hi'.address
      rw [hsame, hj'.address] at haddress
      omega
    · intro m x hm
      have hentry := hchecked.entries m _ (h.lookup_of hm)
      have hcount := hchecked.newIds m
      rw [refCountAt, h.count_newIds, h.lookup_of hm] at hcount
      refine ⟨hentry.nLastSuccess, fun htried => ?_, fun hnew => ?_, ?_⟩
      · obtain ⟨hsuccess, hzero⟩ := hentry.tried htried
        dsimp only at hzero
        exact ⟨hsuccess, length_eq_zero_iff.mp (by omega)⟩
      · obtain ⟨hpos, hle⟩ := hentry.new hnew
        dsimp only at hpos hle
        exact ⟨length_pos_iff.mp (by omega), by omega⟩
      · apply Multiset.coe_nodup.mp
        apply Multiset.toFinset_card_eq_card_iff_nodup.mp
        simpa using hcount
  · rintro ⟨hnodup, hentries⟩
    have hboth : (entries.map CAddrInfo.fInTried).count true +
        (entries.map CAddrInfo.fInTried).count false = entries.length := by
      rw [count_true_add_count_false, length_map]
    refine ⟨?_, fun m info hinfo => ?_, ?_, ?_, h.nodup_triedIds, fun m => ?_, fun m => ?_⟩
    · rw [h.vRandom, length_map, length_range]
      omega
    · rw [h.lookup] at hinfo
      obtain ⟨x, hx, rfl⟩ := map_eq_some_iff.mp hinfo
      have hentry := hentries m x hx
      obtain ⟨i, rfl, hi⟩ := entryAt_eq_some.mp hx
      refine ⟨fun htried => ?_, fun hnew => ?_, ?_, Int.natCast_nonneg i, ?_, ?_,
        hentry.nLastSuccess⟩
      · obtain ⟨hsuccess, hnil⟩ := hentry.tried htried
        exact ⟨hsuccess, by rw [hnil]; rfl⟩
      · obtain ⟨hne, hle⟩ := hentry.new hnew
        have hpos := length_pos_iff.mpr hne
        dsimp only
        omega
      · rw [h.address hnodup _ x hx]
        rfl
      · rw [h.vRandom, Int.toNat_natCast, getElem?_map,
          getElem?_range (List.getElem?_eq_some_iff.mp hi).1]
        rfl
      · rw [hnLastTry x (mem_of_getElem? hi)]
    · rw [h.length_entriesWith, hnTried]
    · rw [h.length_entriesWith, hnNew]
    · rw [h.mem_triedIds]
      constructor
      · rintro ⟨info, hinfo, htried⟩
        exact ⟨_, h.lookup_of hinfo, htried⟩
      · rintro ⟨info, hinfo, htried⟩
        rw [h.lookup] at hinfo
        obtain ⟨x, hx, rfl⟩ := map_eq_some_iff.mp hinfo
        exact ⟨x, hx, htried⟩
    · rw [refCountAt, h.count_newIds, h.lookup]
      cases hm : entryAt entries m with
      | none =>
        rw [h.unknown m hm]
        rfl
      | some x =>
        rw [toFinset_card_of_nodup (hentries m x hm).nodup]
        rfl

end Phoenixcoin.Analysis
