import Mathlib.Algebra.BigOperators.Ring.Finset
import Phoenixcoin.Program.AddrMan

/-!
# The tables of the address manager agree

Each entry has one position in `vRandom`, one address in `mapAddr`, and either one place in a
tried bucket or as many places in new buckets as its reference count says. Every operation keeps
this, whatever the random choices, no assertion fails, and `Check_` finds nothing.
-/

set_option autoImplicit false

namespace Phoenixcoin.Analysis

open Lib Program CAddrMan List Option Finset CAddrInfo Function Finmap Table

/-! ## The invariant -/

section Views

variable (s : CAddrMan)

def posOf (n : ℕ) : Option ℤ := (s.mapInfo.lookup n).map nRandomPos

def ipOf (n : ℕ) : Option CNetAddr := (s.mapInfo.lookup n).map fun info => info.ip

def refOf (n : ℕ) : ℤ := ((s.mapInfo.lookup n).map nRefCount).getD 0

def triedOf (n : ℕ) : Bool := ((s.mapInfo.lookup n).map fInTried).getD false

def newCount (vvNew : NewBucket → Finset ℕ) (n : ℕ) : ℕ :=
  (univ.filter fun b => n ∈ vvNew b).card

def triedCount (vvTried : TriedBucket → List ℕ) (n : ℕ) : ℕ := ∑ b, (vvTried b).count n

def triedSet : Finset ℕ := s.mapInfo.keys.filter fun n => triedOf s n = true

def newSet : Finset ℕ := s.mapInfo.keys.filter fun n => triedOf s n = false

end Views

/-- What the check asks of one entry alone. -/
structure EntryOk (info : CAddrInfo) : Prop where
  lastTry : 0 ≤ info.nLastTry
  lastSuccess : 0 ≤ info.nLastSuccess
  tried : info.fInTried = true → info.nLastSuccess ≠ 0 ∧ info.nRefCount = 0
  untried : info.fInTried = false →
    0 < info.nRefCount ∧ info.nRefCount ≤ ADDRMAN_NEW_BUCKETS_PER_ADDRESS

/-- The tables agree, except that the reference counts are ahead of the buckets by `pending`. -/
structure AddrManOk (pending : ℕ → ℕ) (s : CAddrMan) : Prop where
  ids : ∀ n ∈ s.mapInfo, n < s.nIdCount
  positions : ∀ n z, posOf s n = some z ↔ ∃ i : ℕ, z = i ∧ s.vRandom[i]? = some n
  names : ∀ n addr, ipOf s n = some addr ↔ s.mapAddr.lookup addr = some n
  refs : ∀ n, refOf s n = newCount s.vvNew n + pending n
  tried : ∀ n, triedCount s.vvTried n = if triedOf s n then 1 else 0
  entries : ∀ n info, s.mapInfo.lookup n = some info → EntryOk info
  nTried : s.nTried = (triedSet s).card
  nNew : s.nNew = (newSet s).card

section Basics

variable {pending : ℕ → ℕ} {s : CAddrMan} {n : ℕ} {info : CAddrInfo}

variable {b : NewBucket}

theorem mem_mapInfo_of_ref (h : AddrManOk pending s) (hmem : n ∈ s.vvNew b) :
    ∃ info, s.mapInfo.lookup n = some info := by
  have hcount : 0 < newCount s.vvNew n :=
    card_pos.mpr ⟨b, mem_filter.mpr ⟨mem_univ b, hmem⟩⟩
  have href := h.refs n
  cases hlookup : s.mapInfo.lookup n with
  | some info => exact ⟨info, rfl⟩
  | none =>
    have hzero : refOf s n = 0 := by
      rw [refOf, hlookup]
      rfl
    omega

theorem refOf_of_lookup (hlookup : s.mapInfo.lookup n = some info) :
    refOf s n = info.nRefCount := by
  rw [refOf, hlookup]
  rfl

theorem triedOf_of_lookup (hlookup : s.mapInfo.lookup n = some info) :
    triedOf s n = info.fInTried := by
  rw [triedOf, hlookup]
  rfl

theorem mem_triedSet : n ∈ triedSet s ↔ triedOf s n = true := by
  rw [triedSet, Finset.mem_filter, and_iff_right_iff_imp]
  intro htried
  cases hlookup : s.mapInfo.lookup n with
  | some info => exact mem_of_lookup_eq_some hlookup
  | none =>
    rw [triedOf, hlookup] at htried
    cases htried

theorem mem_newSet : n ∈ newSet s ↔ ∃ info, s.mapInfo.lookup n = some info ∧
    info.fInTried = false := by
  rw [newSet, Finset.mem_filter]
  constructor
  · intro h
    obtain ⟨info, hlookup⟩ := mem_iff.mp h.1
    exact ⟨info, hlookup, (triedOf_of_lookup hlookup).symm.trans h.2⟩
  · intro h
    obtain ⟨info, hlookup, huntried⟩ := h
    exact ⟨mem_of_lookup_eq_some hlookup, (triedOf_of_lookup hlookup).trans huntried⟩

theorem AddrManOk.not_mem_new (h : AddrManOk pending s) (htried : triedOf s n = true)
    (b : NewBucket) : n ∉ s.vvNew b := by
  intro hmem
  obtain ⟨info, hlookup⟩ := mem_mapInfo_of_ref h hmem
  have hzero := ((h.entries n info hlookup).tried ((triedOf_of_lookup hlookup).symm.trans htried)).2
  have href := h.refs n
  rw [refOf_of_lookup hlookup] at href
  have hcount : 0 < newCount s.vvNew n :=
    card_pos.mpr ⟨b, mem_filter.mpr ⟨mem_univ b, hmem⟩⟩
  omega

/-! ## Changes of entries -/

theorem lookup_modifyInfo (n : ℕ) (f : CAddrInfo → CAddrInfo) (s : CAddrMan) (m : ℕ) :
    (s.modifyInfo n f).mapInfo.lookup m =
      if m = n then (s.mapInfo.lookup n).map f else s.mapInfo.lookup m := by
  unfold modifyInfo
  cases hlookup : s.mapInfo.lookup n with
  | some info =>
    rw [lookup_insert_ite]
    rfl
  | none =>
    dsimp only
    split
    · next heq => rw [heq, hlookup, map_none]
    · rfl

theorem modifyInfo_rest (n : ℕ) (f : CAddrInfo → CAddrInfo) (s : CAddrMan) :
    ∃ mapInfo, s.modifyInfo n f = { s with mapInfo := mapInfo } := by
  unfold modifyInfo
  split
  · exact ⟨_, rfl⟩
  · exact ⟨s.mapInfo, rfl⟩

/-- The order in which `vRandom` lists the entries is the one that they know. -/
def Placed (s : CAddrMan) : Prop :=
  ∀ n z, posOf s n = some z ↔ ∃ i : ℕ, z = i ∧ s.vRandom[i]? = some n

variable {mapInfo : Table ℕ CAddrInfo} {vvNew : NewBucket → Finset ℕ} {i : ℕ}

def triedOne (info : CAddrInfo) : ℤ := if info.fInTried then 1 else 0

def newOne (info : CAddrInfo) : ℤ := if info.fInTried then 0 else 1

theorem card_triedSet (s : CAddrMan) : ((triedSet s).card : ℤ) = total triedOne s.mapInfo := by
  rw [triedSet, total, natCast_card_filter]
  refine sum_congr rfl fun m _ => ?_
  unfold triedOf triedOne
  cases s.mapInfo.lookup m <;> simp

theorem card_newSet (s : CAddrMan) : ((newSet s).card : ℤ) = total newOne s.mapInfo := by
  rw [newSet, total, natCast_card_filter]
  refine sum_congr rfl fun m hm => ?_
  obtain ⟨info, hlookup⟩ := mem_iff.mp (mem_keys.mp hm)
  rw [triedOf_of_lookup hlookup, hlookup]
  cases hflag : info.fInTried <;> simp [newOne, hflag]

variable {pending' : ℕ → ℕ}

/-- What is left to show when no entry comes or goes and no address changes. -/
theorem AddrManOk.of_tables {vRandom : List ℕ} {vvTried : TriedBucket → List ℕ}
    {nTried nNew : ℤ} (h : AddrManOk pending s)
    (hpos : Placed { s with mapInfo := mapInfo, vRandom := vRandom })
    (hip : ∀ m, (mapInfo.lookup m).map (fun info => info.ip) = ipOf s m)
    (href : ∀ m, ((mapInfo.lookup m).map nRefCount).getD 0 =
      newCount vvNew m + pending' m)
    (htried : ∀ m, triedCount vvTried m =
      if ((mapInfo.lookup m).map fInTried).getD false then 1 else 0)
    (hentries : ∀ m info, mapInfo.lookup m = some info → EntryOk info)
    (hnTried : nTried = total triedOne mapInfo) (hnNew : nNew = total newOne mapInfo) :
    AddrManOk pending' { s with
      mapInfo := mapInfo, vRandom := vRandom, vvTried := vvTried, vvNew := vvNew
      nTried := nTried, nNew := nNew } := by
  refine ⟨fun m hm => ?_, hpos, fun m addr => ?_, href, htried, hentries, ?_, ?_⟩
  · obtain ⟨info, hlookup⟩ := mem_iff.mp hm
    have hsome := hip m
    rw [hlookup] at hsome
    obtain ⟨old, hold, -⟩ := map_eq_some_iff.mp hsome.symm
    exact h.ids m (mem_of_lookup_eq_some hold)
  · exact (iff_of_eq (congrArg (· = some addr) (hip m))).trans (h.names m addr)
  · rw [card_triedSet]
    exact hnTried
  · rw [card_newSet]
    exact hnNew

/-- The same when no flag changes either. -/
theorem AddrManOk.of_entries {vRandom : List ℕ} (h : AddrManOk pending s)
    (hpos : Placed { s with mapInfo := mapInfo, vRandom := vRandom })
    (hip : ∀ m, (mapInfo.lookup m).map (fun info => info.ip) = ipOf s m)
    (href : ∀ m, ((mapInfo.lookup m).map nRefCount).getD 0 =
      newCount vvNew m + pending' m)
    (hflag : ∀ m, (mapInfo.lookup m).map fInTried =
      (s.mapInfo.lookup m).map fInTried)
    (hentries : ∀ m info, mapInfo.lookup m = some info → EntryOk info) :
    AddrManOk pending' { s with mapInfo := mapInfo, vRandom := vRandom, vvNew := vvNew } := by
  have htotal (f : Bool → ℤ) : total (fun info : CAddrInfo => f info.fInTried) mapInfo =
      total (fun info => f info.fInTried) s.mapInfo := by
    refine total_congr fun m => ?_
    have hm := congrArg (Option.map f) (hflag m)
    rwa [Option.map_map, Option.map_map] at hm
  refine h.of_tables hpos hip href (fun m => ?_) hentries ?_ ?_
  · rw [hflag]
    exact h.tried m
  · rw [h.nTried, card_triedSet]
    exact (htotal fun flag => if flag then 1 else 0).symm
  · rw [h.nNew, card_newSet]
    exact (htotal fun flag => if flag then 0 else 1).symm

theorem modifyInfo_eq (hlookup : s.mapInfo.lookup n = some info) (f : CAddrInfo → CAddrInfo) :
    s.modifyInfo n f = { s with mapInfo := s.mapInfo.insert n (f info) } := by
  rw [modifyInfo, hlookup]

/-- What is left to show when one entry changes, but for its place, flag and address. -/
theorem AddrManOk.of_insert {info' : CAddrInfo} (h : AddrManOk pending s)
    (hlookup : s.mapInfo.lookup n = some info) (hpos : info'.nRandomPos = info.nRandomPos)
    (hip : info'.ip = info.ip) (hflag : info'.fInTried = info.fInTried)
    (href : ∀ m, (if m = n then info'.nRefCount else refOf s m) = newCount vvNew m + pending' m)
    (hentry : EntryOk info') :
    AddrManOk pending' { s with mapInfo := s.mapInfo.insert n info', vvNew := vvNew } := by
  have hlookup' (m : ℕ) := lookup_insert_ite m n info' s.mapInfo
  have hmap {β : Type} (g : CAddrInfo → β) (hg : g info' = g info) (m : ℕ) :
      ((s.mapInfo.insert n info').lookup m).map g = (s.mapInfo.lookup m).map g := by
    rw [hlookup']
    split
    · next hm => rw [hm, hlookup, map_some, map_some, hg]
    · rfl
  refine h.of_entries (fun m z => ?_) (hmap _ hip) (fun m => ?_)
    (hmap _ hflag) fun m info hinfo => ?_
  · exact (iff_of_eq (congrArg (· = some z) (hmap _ hpos m))).trans (h.positions m z)
  · rw [hlookup', ← href m]
    split <;> rfl
  · rw [hlookup'] at hinfo
    split at hinfo
    · cases hinfo
      exact hentry
    · exact h.entries m info hinfo

/-- A change of the statistics of an entry. -/
theorem AddrManOk.modifyInfo {f : CAddrInfo → CAddrInfo} (h : AddrManOk pending s)
    (hpos : ∀ info, (f info).nRandomPos = info.nRandomPos) (hip : ∀ info, (f info).ip = info.ip)
    (href : ∀ info, (f info).nRefCount = info.nRefCount)
    (htried : ∀ info, (f info).fInTried = info.fInTried)
    (hentry : ∀ info, EntryOk info → EntryOk (f info)) : AddrManOk pending (s.modifyInfo n f) := by
  cases hlookup : s.mapInfo.lookup n with
  | none =>
    rw [CAddrMan.modifyInfo, hlookup]
    exact h
  | some info =>
    rw [modifyInfo_eq hlookup]
    refine h.of_insert hlookup (hpos info) (hip info) (htried info) (fun m => ?_)
      (hentry info (h.entries n info hlookup))
    rw [← h.refs m, href, ← refOf_of_lookup hlookup]
    split
    · next hm => rw [hm]
    · rfl

/-! ## References -/

def only (n : ℕ) : ℕ → ℕ := fun m => if m = n then 1 else 0

def noPending : ℕ → ℕ := fun _ => 0

theorem newCount_insert {vvNew : NewBucket → Finset ℕ} {b : NewBucket} (hnew : n ∉ vvNew b)
    (m : ℕ) : newCount (update vvNew b (insert n (vvNew b))) m =
      newCount vvNew m + only n m := by
  unfold newCount only
  by_cases hm : m = n
  · have hset : (univ.filter fun b' => m ∈ update vvNew b (insert n (vvNew b)) b') =
        insert b (univ.filter fun b' => m ∈ vvNew b') := by
      ext b'
      by_cases hb : b' = b
      · subst hb
        simp [hm]
      · simp [hb]
    rw [hset, card_insert_of_notMem, if_pos hm]
    simpa [hm] using hnew
  · have hset : (univ.filter fun b' => m ∈ update vvNew b (insert n (vvNew b)) b') =
        univ.filter fun b' => m ∈ vvNew b' := by
      ext b'
      by_cases hb : b' = b
      · subst hb
        simp [hm]
      · simp [hb]
    rw [hset, if_neg hm, Nat.add_zero]

theorem newCount_erase (hmem : n ∈ vvNew b) (m : ℕ) :
    newCount vvNew m =
      newCount (update vvNew b ((vvNew b).erase n)) m + only n m := by
  have hinsert := @newCount_insert n (update vvNew b ((vvNew b).erase n)) b (by simp) m
  rw [← hinsert]
  rw [update_self, insert_erase hmem, update_idem, update_eq_self]

theorem AddrManOk.addPending (h : AddrManOk noPending s) (hlookup : s.mapInfo.lookup n = some info)
    (huntried : info.fInTried = false) (hroom : info.nRefCount < ADDRMAN_NEW_BUCKETS_PER_ADDRESS) :
    AddrManOk (only n)
      (s.modifyInfo n fun info => { info with nRefCount := info.nRefCount + 1 }) := by
  have hentry := h.entries n info hlookup
  have hpositive := (hentry.untried huntried).1
  rw [modifyInfo_eq hlookup]
  refine h.of_insert hlookup rfl rfl rfl (fun m => ?_) ⟨hentry.lastTry, hentry.lastSuccess,
    fun htrue => absurd (huntried.symm.trans htrue) Bool.false_ne_true, fun _ => ?_⟩
  · have href := h.refs m
    unfold noPending at href
    unfold only
    by_cases hm : m = n
    · rw [hm, refOf_of_lookup hlookup] at href
      rw [if_pos hm, if_pos hm, hm]
      dsimp only
      omega
    · rw [if_neg hm, if_neg hm]
      exact href
  · dsimp only
    omega

theorem AddrManOk.insertNew (h : AddrManOk (only n) s) (hnew : n ∉ s.vvNew b) :
    AddrManOk noPending (s.insertNew b n) := by
  refine h.of_entries h.positions (fun _ => rfl) (fun m => ?_) (fun _ => rfl) h.entries
  rw [newCount_insert hnew]
  have href := h.refs m
  unfold refOf at href
  unfold noPending
  omega

/-! ## Positions -/

def unplaced (info : CAddrInfo) : CAddrInfo := { info with nRandomPos := 0 }

theorem map_of_unplaced {β : Type} {x y : Option CAddrInfo} (h : x.map unplaced = y.map unplaced)
    (g : CAddrInfo → β) (hg : ∀ info, g (unplaced info) = g info) : x.map g = y.map g := by
  have hfun : g = g ∘ unplaced := funext fun info => (hg info).symm
  rw [hfun, ← Option.map_map, ← Option.map_map, h]

theorem EntryOk.of_unplaced {info' : CAddrInfo} (h : EntryOk info)
    (heq : unplaced info' = unplaced info) : EntryOk info' := by
  obtain ⟨h1, h2, h3, h4⟩ := h
  have hfield {β : Type} (g : CAddrInfo → β) (hg : ∀ info, g (unplaced info) = g info) :
      g info' = g info := by rw [← hg info', heq, hg]
  have hlastTry := hfield nLastTry fun _ => rfl
  have hlastSuccess := hfield nLastSuccess fun _ => rfl
  have hrefs := hfield nRefCount fun _ => rfl
  have hflag := hfield fInTried fun _ => rfl
  exact ⟨hlastTry ▸ h1, hlastSuccess ▸ h2, hlastSuccess ▸ hrefs ▸ hflag ▸ h3, hrefs ▸ hflag ▸ h4⟩

theorem Placed.mem (h : Placed s) (hget : s.vRandom[i]? = some n) :
    n ∈ s.mapInfo ∧ posOf s n = some (i : ℤ) := by
  have hpos := (h n i).mpr ⟨i, rfl, hget⟩
  refine ⟨?_, hpos⟩
  obtain ⟨info, hlookup, -⟩ := map_eq_some_iff.mp hpos
  exact mem_of_lookup_eq_some hlookup

/-- What `SwapRandom` changes. -/
structure Swapped (s s' : CAddrMan) (i j : ℕ) : Prop where
  rest : ∃ mapInfo vRandom, s' = { s with mapInfo := mapInfo, vRandom := vRandom }
  entries : ∀ m, (s'.mapInfo.lookup m).map unplaced = (s.mapInfo.lookup m).map unplaced
  placed : Placed s'
  length : s'.vRandom.length = s.vRandom.length
  moved : s'.vRandom[j]? = s.vRandom[i]?

theorem swapRandom_spec (h : Placed s) {j : ℕ} (hi : i < s.vRandom.length)
    (hj : j < s.vRandom.length) : ∃ s', s.swapRandom i j = some s' ∧ Swapped s s' i j := by
  by_cases hij : i = j
  · subst hij
    refine ⟨s, ?_, ⟨s.mapInfo, s.vRandom, rfl⟩, fun _ => rfl, h, rfl, rfl⟩
    rw [swapRandom, if_pos rfl]
  · obtain ⟨n1, hn1⟩ : ∃ n1, s.vRandom[i]? = some n1 := ⟨_, getElem?_eq_getElem hi⟩
    obtain ⟨n2, hn2⟩ : ∃ n2, s.vRandom[j]? = some n2 := ⟨_, getElem?_eq_getElem hj⟩
    obtain ⟨hmem1, hpos1⟩ := h.mem hn1
    obtain ⟨hmem2, hpos2⟩ := h.mem hn2
    have hne : n2 ≠ n1 := by
      rintro rfl
      rw [hpos1] at hpos2
      exact hij (by exact_mod_cast Option.some.inj hpos2)
    generalize hs1 : (s.modifyInfo n1 fun info => { info with nRandomPos := (j : ℤ) }).modifyInfo n2
      (fun info => { info with nRandomPos := (i : ℤ) }) = s1
    have hrest : ∃ mapInfo, s1 = { s with mapInfo := mapInfo } := by
      obtain ⟨t1, ht1⟩ := modifyInfo_rest n1 (fun info => { info with nRandomPos := (j : ℤ) }) s
      obtain ⟨t2, ht2⟩ := modifyInfo_rest n2 (fun info => { info with nRandomPos := (i : ℤ) })
        { s with mapInfo := t1 }
      exact ⟨t2, by rw [← hs1, ht1, ht2]⟩
    obtain ⟨table, htable⟩ := hrest
    have hrun : s.swapRandom i j = some { s1 with vRandom := (s.vRandom.set i n2).set j n1 } := by
      have hguard : (guard (n1 ∈ s.mapInfo ∧ n2 ∈ s.mapInfo) : Option Unit) = some () :=
        if_pos ⟨hmem1, hmem2⟩
      have hvRandom : s1.vRandom = s.vRandom := by rw [htable]
      rw [swapRandom, if_neg hij, hn1, hn2, ← hvRandom]
      dsimp only [bind_eq_bind, bind_some]
      rw [hguard, hs1]
      rfl
    have hlookup (m : ℕ) : s1.mapInfo.lookup m =
        if m = n2 then (s.mapInfo.lookup n2).map fun info => { info with nRandomPos := (i : ℤ) }
        else if m = n1 then (s.mapInfo.lookup n1).map fun info =>
          { info with nRandomPos := (j : ℤ) }
        else s.mapInfo.lookup m := by
      rw [← hs1, lookup_modifyInfo, lookup_modifyInfo, lookup_modifyInfo, if_neg hne]
    have hset (k : ℕ) : ((s.vRandom.set i n2).set j n1)[k]? =
        if k = j then some n1 else if k = i then some n2 else s.vRandom[k]? := by
      rw [getElem?_set, getElem?_set, length_set]
      by_cases hkj : k = j
      · subst hkj
        rw [if_pos rfl, if_pos hj, if_pos rfl]
      · rw [if_neg (Ne.symm hkj), if_neg hkj]
        by_cases hki : k = i
        · subst hki
          rw [if_pos hi, if_pos rfl]
        · rw [if_neg (Ne.symm hki), if_neg hki]
    refine ⟨_, hrun, ⟨table, _, by rw [htable]⟩, fun m => ?_, fun m z => ?_, ?_, ?_⟩
    · rw [hlookup]
      split
      · next hm =>
        rw [hm, Option.map_map]
        rfl
      · split
        · next hm =>
          rw [hm, Option.map_map]
          rfl
        · rfl
    · have hposOf : posOf { s1 with vRandom := (s.vRandom.set i n2).set j n1 } m =
          if m = n2 then some (i : ℤ) else if m = n1 then some (j : ℤ) else posOf s m := by
        rw [posOf, hlookup]
        split
        · obtain ⟨info, hinfo⟩ := mem_iff.mp hmem2
          rw [hinfo]
          rfl
        · split
          · obtain ⟨info, hinfo⟩ := mem_iff.mp hmem1
            rw [hinfo]
            rfl
          · rfl
      rw [hposOf]
      constructor
      · intro hz
        split at hz
        · next hm =>
          cases hz
          refine ⟨i, rfl, ?_⟩
          rw [hset, if_neg hij, if_pos rfl, hm]
        · split at hz
          · next hm =>
            cases hz
            refine ⟨j, rfl, ?_⟩
            rw [hset, if_pos rfl, hm]
          · next hm2 hm1 =>
            obtain ⟨k, rfl, hk⟩ := (h m z).mp hz
            refine ⟨k, rfl, ?_⟩
            rw [hset, if_neg, if_neg, hk]
            · rintro rfl
              exact hm1 (Option.some.inj (hk.symm.trans hn1))
            · rintro rfl
              exact hm2 (Option.some.inj (hk.symm.trans hn2))
      · intro hk
        obtain ⟨k, rfl, hk⟩ := hk
        rw [hset] at hk
        split at hk
        · next hkj =>
          cases hk
          rw [if_neg hne.symm, if_pos rfl, hkj]
        · split at hk
          · next hki =>
            cases hk
            rw [if_pos rfl, hki]
          · next hkj hki =>
            have hpos := (h m k).mpr ⟨k, rfl, hk⟩
            rw [if_neg, if_neg, hpos]
            · rintro rfl
              rw [hpos1] at hpos
              exact hki (by exact_mod_cast (Option.some.inj hpos).symm)
            · rintro rfl
              rw [hpos2] at hpos
              exact hkj (by exact_mod_cast (Option.some.inj hpos).symm)
    · rw [length_set, length_set]
    · rw [hset, if_pos rfl, hn1]

/-! ## Removing a reference -/

theorem lookup_decremented (hlookup : s.mapInfo.lookup n = some info) (m : ℕ) :
    (s.modifyInfo n fun info => { info with nRefCount := info.nRefCount - 1 }).mapInfo.lookup m =
      if m = n then some { info with nRefCount := info.nRefCount - 1 }
      else s.mapInfo.lookup m := by
  rw [lookup_modifyInfo, hlookup]
  rfl

section

variable (h : AddrManOk pending s) (hmem : n ∈ s.vvNew b)
include h hmem

/-- An entry that keeps references stays. -/
theorem AddrManOk.dropOne
    (hlookup : s.mapInfo.lookup n = some info) (hzero : info.nRefCount - 1 ≠ 0) :
    AddrManOk pending ((s.modifyInfo n fun info =>
      { info with nRefCount := info.nRefCount - 1 }).eraseNew b n) := by
  have hentry := h.entries n info hlookup
  rw [modifyInfo_eq hlookup]
  unfold eraseNew
  dsimp only
  refine h.of_insert hlookup rfl rfl rfl (fun m => ?_) ⟨hentry.lastTry, hentry.lastSuccess,
    fun htrue => ?_, fun hfalse => ?_⟩
  · have href := h.refs m
    have hcount := newCount_erase hmem m
    unfold only at hcount
    by_cases hm : m = n
    · rw [hm, refOf_of_lookup hlookup] at href
      rw [if_pos hm, hm] at hcount
      rw [hm]
      dsimp only
      omega
    · rw [if_neg hm] at hcount
      rw [if_neg hm]
      omega
  · exact absurd hmem (h.not_mem_new ((triedOf_of_lookup hlookup).trans htrue) b)
  · have hpositive := hentry.untried hfalse
    dsimp only
    omega

/-- The last entry of `vRandom` goes, and with it its address and its reference. -/
theorem AddrManOk.deleteLast {s2 : CAddrMan}
    (hlookup : s.mapInfo.lookup n = some info) (hone : info.nRefCount = 1)
    (hpending : pending n = 0)
    (hrest : ∃ mapInfo vRandom, s2 = { s with mapInfo := mapInfo, vRandom := vRandom })
    (hentries : ∀ m, m ≠ n → (s2.mapInfo.lookup m).map unplaced = (s.mapInfo.lookup m).map unplaced)
    (hplaced : Placed s2) (hlast : s2.vRandom[s2.vRandom.length - 1]? = some n) :
    AddrManOk pending ({ s2 with
      vRandom := s2.vRandom.dropLast
      mapAddr := s2.mapAddr.erase info.ip
      mapInfo := s2.mapInfo.erase n
      nNew := s2.nNew - 1 }.eraseNew b n) := by
  obtain ⟨mapInfo, vRandom, rfl⟩ := hrest
  have hlookup' (m : ℕ) : (mapInfo.erase n).lookup m = if m = n then none else mapInfo.lookup m :=
    lookup_erase_ite m n mapInfo
  have hview {β : Type} (g : CAddrInfo → β) (hg : ∀ info, g (unplaced info) = g info) (m : ℕ) :
      ((mapInfo.erase n).lookup m).map g = if m = n then none else (s.mapInfo.lookup m).map g := by
    rw [hlookup']
    split
    · rfl
    · next hm => exact map_of_unplaced (hentries m hm) g hg
  have hip : ipOf s n = some info.ip := by
    rw [ipOf, hlookup]
    rfl
  have huntried : info.fInTried = false := by
    by_contra htried
    have htriedOf := (triedOf_of_lookup hlookup).trans (Bool.not_eq_false _ ▸ htried)
    exact h.not_mem_new htriedOf b hmem
  unfold eraseNew
  generalize hs' : ({ s with
    vRandom := vRandom.dropLast
    mapAddr := s.mapAddr.erase info.ip
    mapInfo := mapInfo.erase n
    nNew := s.nNew - 1
    vvNew := update s.vvNew b ((s.vvNew b).erase n) } : CAddrMan) = s'
  have htriedOf (m : ℕ) : triedOf s' m = triedOf s m := by
    subst hs'
    unfold triedOf
    rw [hview _ (fun _ => rfl)]
    split
    · next hm =>
      rw [hm, hlookup]
      exact huntried.symm
    · rfl
  have hkeys (m : ℕ) : m ∈ s'.mapInfo ↔ m ≠ n ∧ m ∈ s.mapInfo := by
    subst hs'
    rw [← Finmap.lookup_isSome, ← isSome_map (f := unplaced), hview unplaced fun _ => rfl,
      ← Finmap.lookup_isSome]
    split
    · next hm => simp [hm]
    · next hm => simp [hm]
  have hposOf (m : ℕ) : posOf s' m = if m = n then none else (mapInfo.lookup m).map
      nRandomPos := by
    subst hs'
    rw [posOf, hlookup']
    split <;> rfl
  have hlastPos : (mapInfo.lookup n).map nRandomPos =
      some ((vRandom.length - 1 : ℕ) : ℤ) := (hplaced n _).mpr ⟨_, rfl, hlast⟩
  refine ⟨fun m hm => ?_, fun m z => ?_, fun m addr => ?_, fun m => ?_, fun m => ?_,
    fun m info' hinfo => ?_, ?_, ?_⟩
  · subst hs'
    exact h.ids m ((hkeys m).mp hm).2
  · have hvRandom : s'.vRandom = vRandom.dropLast := by rw [← hs']
    rw [hposOf, hvRandom]
    constructor
    · intro hz
      split at hz
      · cases hz
      · next hm =>
        obtain ⟨i, rfl, hi⟩ := (hplaced m z).mp hz
        refine ⟨i, rfl, ?_⟩
        have hlt : i < vRandom.length := (List.getElem?_eq_some_iff.mp hi).1
        rw [getElem?_dropLast, if_pos, hi]
        -- The last place belongs to the entry that goes.
        by_contra hnot
        have hend : i = vRandom.length - 1 := by omega
        rw [hend, hlast] at hi
        exact hm (some.inj hi).symm
    · intro hi
      obtain ⟨i, rfl, hi⟩ := hi
      rw [getElem?_dropLast] at hi
      split at hi
      · next hlt =>
        have hpos := (hplaced m i).mpr ⟨i, rfl, hi⟩
        rw [if_neg]
        · exact hpos
        · rintro rfl
          have hsame : ((i : ℕ) : ℤ) = ((vRandom.length - 1 : ℕ) : ℤ) :=
            some.inj (hpos.symm.trans hlastPos)
          omega
      · cases hi
  · have hmapAddr : s'.mapAddr = s.mapAddr.erase info.ip := by rw [← hs']
    have hipOf : ipOf s' m = if m = n then none else ipOf s m := by
      subst hs'
      exact hview (fun info => info.ip) (fun _ => rfl) m
    rw [hmapAddr, hipOf, lookup_erase_ite]
    by_cases hm : m = n
    · rw [if_pos hm, hm]
      refine iff_of_false (fun hnone => by cases hnone) ?_
      split
      · intro hnone
        cases hnone
      · next hne =>
        intro hsome
        have hsame := (h.names n addr).mpr hsome
        rw [hip] at hsame
        exact hne (some.inj hsame).symm
    · rw [if_neg hm]
      split
      · next heq =>
        refine iff_of_false (fun hsome => ?_) (fun hnone => by cases hnone)
        have hm' := (h.names m addr).mp hsome
        rw [heq, (h.names n info.ip).mp hip] at hm'
        exact hm (some.inj hm').symm
      · exact h.names m addr
  · have href := h.refs m
    have hcount := newCount_erase hmem m
    have hrefOf : refOf s' m = if m = n then 0 else refOf s m := by
      subst hs'
      rw [refOf, hview nRefCount fun _ => rfl]
      split <;> rfl
    have hvvNew : s'.vvNew = update s.vvNew b ((s.vvNew b).erase n) := by rw [← hs']
    unfold only at hcount
    rw [hrefOf, hvvNew]
    by_cases hm : m = n
    · rw [hm, refOf_of_lookup hlookup, hpending] at href
      rw [if_pos hm, hm] at hcount
      rw [hm]
      omega
    · rw [if_neg hm]
      rw [if_neg hm] at hcount
      omega
  · have hvvTried : s'.vvTried = s.vvTried := by rw [← hs']
    rw [htriedOf, hvvTried]
    exact h.tried m
  · subst hs'
    rw [hlookup'] at hinfo
    split at hinfo
    · cases hinfo
    · next hm =>
      have hsome := hentries m hm
      rw [hinfo] at hsome
      obtain ⟨old, hold, heq⟩ := map_eq_some_iff.mp hsome.symm
      exact (h.entries m old hold).of_unplaced heq.symm
  · have hset : triedSet s' = triedSet s := by
      ext m
      rw [mem_triedSet, mem_triedSet, htriedOf]
    have hnTried : s'.nTried = s.nTried := by rw [← hs']
    rw [hset, hnTried]
    exact h.nTried
  · have hset : newSet s' = (newSet s).erase n := by
      ext m
      unfold newSet
      rw [Finset.mem_erase, Finset.mem_filter, Finset.mem_filter, Finmap.mem_keys,
        Finmap.mem_keys, hkeys, htriedOf, and_assoc]
    have hnNew : s'.nNew = s.nNew - 1 := by rw [← hs']
    have hn : n ∈ newSet s := mem_newSet.mpr ⟨info, hlookup, huntried⟩
    have hpositive := Finset.card_pos.mpr ⟨n, hn⟩
    rw [hset, hnNew, h.nNew, Finset.card_erase_of_mem hn]
    omega

/-- Dropping a reference that a bucket holds. -/
theorem dropReference_spec
    (hpending : pending n = 0) : ∃ s', s.dropReference b n = some s' ∧ AddrManOk pending s' ∧
      s'.vvNew = update s.vvNew b ((s.vvNew b).erase n) := by
  obtain ⟨info, hlookup⟩ := mem_mapInfo_of_ref h hmem
  have hdecremented := lookup_decremented hlookup
  rw [dropReference, hlookup]
  dsimp only [bind_eq_bind, bind_some]
  by_cases hzero : info.nRefCount - 1 = 0
  · rw [if_pos hzero]
    obtain ⟨table, htable⟩ := modifyInfo_rest n
      (fun info => { info with nRefCount := info.nRefCount - 1 }) s
    rw [htable] at hdecremented ⊢
    have hpos : posOf s n = some info.nRandomPos := by
      rw [posOf, hlookup]
      rfl
    obtain ⟨i, hi, hget⟩ := (h.positions n info.nRandomPos).mp hpos
    have hlt : i < s.vRandom.length := (List.getElem?_eq_some_iff.mp hget).1
    have hplaced : Placed { s with mapInfo := table } := by
      intro m z
      have hsame : posOf { s with mapInfo := table } m = posOf s m := by
        unfold posOf
        rw [hdecremented]
        split
        · next hm =>
          rw [hm, hlookup]
          rfl
        · rfl
      rw [hsame]
      exact h.positions m z
    obtain ⟨s2, hswap, hswapped⟩ := swapRandom_spec (s := { s with mapInfo := table }) hplaced
      (i := i) (j := s.vRandom.length - 1) hlt (by dsimp only; omega)
    rw [hi, Int.toNat_natCast, hswap]
    refine ⟨_, rfl, ?_, ?_⟩
    · obtain ⟨mapInfo, vRandom, hs2⟩ := hswapped.rest
      refine h.deleteLast hmem hlookup (by omega) hpending ⟨mapInfo, vRandom, hs2⟩ (fun m hm => ?_)
        hswapped.placed ?_
      · rw [hswapped.entries, hdecremented, if_neg hm]
      · rw [hswapped.length, hswapped.moved]
        exact hget
    · obtain ⟨mapInfo, vRandom, hs2⟩ := hswapped.rest
      rw [hs2]
      rfl
  · rw [if_neg hzero]
    refine ⟨_, rfl, h.dropOne hmem hlookup hzero, ?_⟩
    obtain ⟨table, htable⟩ := modifyInfo_rest n
      (fun info => { info with nRefCount := info.nRefCount - 1 }) s
    rw [htable]
    rfl

end

theorem getRandInt_lt {r nMax : ℕ} (h : 0 < nMax) : getRandInt r nMax < nMax := by
  rw [getRandInt, if_neg (Nat.pos_iff_ne_zero.mp h)]
  exact Nat.mod_lt _ h

theorem findTerrible_spec (nNow : ℤ) {ids : List ℕ}
    (hknown : ∀ n ∈ ids, ∃ info, mapInfo.lookup n = some info) :
    ∃ result, findTerrible mapInfo nNow ids = some result ∧ ∀ n, result = some n → n ∈ ids := by
  induction ids with
  | nil => exact ⟨none, rfl, fun n hn => by cases hn⟩
  | cons nId rest ih =>
    obtain ⟨info, hlookup⟩ := hknown nId mem_cons_self
    rw [findTerrible, hlookup]
    dsimp only [bind_eq_bind, bind_some]
    split
    · refine ⟨some nId, rfl, fun n hn => ?_⟩
      cases hn
      exact mem_cons_self
    · obtain ⟨result, hrest, hmem⟩ := ih fun n hn => hknown n (mem_cons_of_mem _ hn)
      exact ⟨result, hrest, fun n hn => mem_cons_of_mem _ (hmem n hn)⟩

theorem oldestAt_spec {mapInfo : Table ℕ CAddrInfo} (positions : List ℕ)
    {items : List (ℕ × ℕ)} (nOldest : Option ℕ)
    (hknown : ∀ item ∈ items, ∃ info, mapInfo.lookup item.1 = some info)
    (holdest : ∀ n, nOldest = some n → ∃ info, mapInfo.lookup n = some info)
    (hsome : nOldest.isSome = true ∨ ∃ item ∈ items, item.2 ∈ positions) :
    ∃ n, oldestAt mapInfo positions items nOldest = some (some n) ∧
      (nOldest = some n ∨ ∃ item ∈ items, item.1 = n) := by
  induction items generalizing nOldest with
  | nil =>
    obtain ⟨n, hn⟩ := isSome_iff_exists.mp (hsome.resolve_right fun h => by
        obtain ⟨item, hmem, -⟩ := h
        exact absurd hmem not_mem_nil)
    exact ⟨n, by rw [hn]; rfl, Or.inl hn⟩
  | cons item rest ih =>
    obtain ⟨nId, nI⟩ := item
    obtain ⟨info, hlookup⟩ := hknown (nId, nI) mem_cons_self
    have hrest : ∀ item ∈ rest, ∃ info, mapInfo.lookup item.1 = some info :=
      fun item hmem => hknown item (mem_cons_of_mem _ hmem)
    have hlater {nOldest' : Option ℕ} (hold : nOldest' = nOldest ∨ nOldest' = some nId)
        (hsome' : nOldest'.isSome = true ∨ ∃ item ∈ rest, item.2 ∈ positions) :
        ∃ n, oldestAt mapInfo positions rest nOldest' = some (some n) ∧
          (nOldest = some n ∨ ∃ item ∈ (nId, nI) :: rest, item.1 = n) := by
      have hknown' : ∀ n, nOldest' = some n → ∃ info, mapInfo.lookup n = some info := by
        intro n hn
        rcases hold with heq | heq
        · exact holdest n (heq ▸ hn)
        · cases heq.symm.trans hn
          exact ⟨info, hlookup⟩
      obtain ⟨n, hrun, hor⟩ := ih nOldest' hrest hknown' hsome'
      refine ⟨n, hrun, ?_⟩
      rcases hor with hn | ⟨item, hmem, hitem⟩
      · rcases hold with heq | heq
        · exact Or.inl (heq ▸ hn)
        · exact Or.inr ⟨(nId, nI), mem_cons_self, some.inj (heq.symm.trans hn)⟩
      · exact Or.inr ⟨item, mem_cons_of_mem _ hmem, hitem⟩
    unfold oldestAt
    by_cases hposition : nI ∈ positions
    · rw [if_pos hposition]
      cases nOldest with
      | none => exact hlater (Or.inr rfl) (Or.inl rfl)
      | some nOld =>
        obtain ⟨infoOld, hlookupOld⟩ := holdest nOld rfl
        dsimp only
        rw [hlookup, hlookupOld]
        dsimp only [bind_eq_bind, bind_some]
        split
        · exact hlater (Or.inr rfl) (Or.inl rfl)
        · exact hlater (Or.inl rfl) (Or.inl rfl)
    · rw [if_neg hposition]
      refine hlater (Or.inl rfl) (hsome.imp_right fun h => ?_)
      obtain ⟨item, hmem, hitem⟩ := h
      rcases mem_cons.mp hmem with rfl | hmem
      · exact absurd hitem hposition
      · exact ⟨item, hmem, hitem⟩

/-- `ShrinkNew` removes one entry from a bucket that has one. -/
theorem shrinkNew_spec (nNow : ℤ) (r : ℕ → ℕ) (h : AddrManOk pending s) (hne : (s.vvNew b).Nonempty)
    (hpending : ∀ n ∈ s.vvNew b, pending n = 0) :
    ∃ s' n, s.shrinkNew nNow r b = some s' ∧ AddrManOk pending s' ∧
      s'.vvNew = update s.vvNew b ((s.vvNew b).erase n) := by
  have hids : ∀ n, n ∈ (s.vvNew b).sort (· ≤ ·) ↔ n ∈ s.vvNew b := fun n => mem_sort _
  have hknown : ∀ n ∈ (s.vvNew b).sort (· ≤ ·), ∃ info, s.mapInfo.lookup n = some info :=
    fun n hn => mem_mapInfo_of_ref h ((hids n).mp hn)
  have hdrop {n : ℕ} (hn : n ∈ (s.vvNew b).sort (· ≤ ·)) :
      ∃ s' n', s.dropReference b n = some s' ∧ AddrManOk pending s' ∧
        s'.vvNew = update s.vvNew b ((s.vvNew b).erase n') := by
    have hmem := (hids n).mp hn
    obtain ⟨s', hrun, hok, hvvNew⟩ := dropReference_spec h hmem (hpending n hmem)
    exact ⟨s', n, hrun, hok, hvvNew⟩
  have hlength : 0 < ((s.vvNew b).sort (· ≤ ·)).length := by
    rw [length_sort]
    exact card_pos.mpr hne
  unfold shrinkNew
  dsimp only
  generalize (s.vvNew b).sort (· ≤ ·) = vNew at hknown hdrop hlength ⊢
  obtain ⟨result, hfind, hmem⟩ := findTerrible_spec nNow hknown
  rw [hfind]
  dsimp only [bind_eq_bind, bind_some]
  cases result with
  | some nId => exact hdrop (hmem nId rfl)
  | none =>
    have hposition : getRandInt (r 0) vNew.length < vNew.length := getRandInt_lt hlength
    obtain ⟨n, holdest, hor⟩ := @oldestAt_spec s.mapInfo
      ((List.range 4).map fun k => getRandInt (r k) vNew.length) vNew.zipIdx none
      (fun item hitem => hknown item.1 (fst_mem_of_mem_zipIdx hitem))
      (fun n hn => by cases hn)
      (Or.inr ⟨(vNew[getRandInt (r 0) vNew.length], getRandInt (r 0) vNew.length),
        mem_zipIdx_iff_getElem?.mpr (getElem?_eq_getElem hposition),
        List.mem_map.mpr ⟨0, by decide, rfl⟩⟩)
    rw [holdest, bind_some]
    rcases hor with hn | ⟨item, hitem, rfl⟩
    · cases hn
    · exact hdrop (fst_mem_of_mem_zipIdx hitem)

end Basics

end Phoenixcoin.Analysis
