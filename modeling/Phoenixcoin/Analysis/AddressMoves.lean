import Phoenixcoin.Analysis.AddressTables

/-!
# The operations of the address manager

An address moves from the new buckets to a tried one, where it may replace an older entry that
goes back to a new bucket. Every operation has a result and keeps the tables in agreement.
-/

set_option autoImplicit false

namespace Phoenixcoin.Analysis

open Lib Program CAddrMan List Option Finmap Function Table CAddrInfo

section Moves

variable {pending : ℕ → ℕ} {s : CAddrMan} {n : ℕ} {info : CAddrInfo}

/-! ## Tried buckets -/

theorem triedCount_update (vvTried : TriedBucket → List ℕ) (k : TriedBucket) (l : List ℕ) (m : ℕ) :
    triedCount (update vvTried k l) m + (vvTried k).count m =
      triedCount vvTried m + l.count m := by
  have hrest : ∑ b ∈ Finset.univ.erase k, (update vvTried k l b).count m =
      ∑ b ∈ Finset.univ.erase k, (vvTried b).count m := by
    refine Finset.sum_congr rfl fun b hb => ?_
    rw [update_of_ne (Finset.ne_of_mem_erase hb)]
  unfold triedCount
  rw [← Finset.add_sum_erase _ _ (Finset.mem_univ k), update_self,
    ← Finset.add_sum_erase _ (fun b => (vvTried b).count m) (Finset.mem_univ k)]
  omega

theorem count_set {l : List ℕ} {i : ℕ} (hi : i < l.length) (m : ℕ) :
    (l.set i n).count m + only l[i] m = l.count m + only n m := by
  have hset := (set_perm_cons_eraseIdx hi n).count_eq m
  have hget := (getElem_cons_eraseIdx_perm hi).count_eq m
  rw [count_cons] at hset hget
  unfold only
  simp only [beq_iff_eq, eq_comm (b := m)] at hset hget
  omega

variable {k : TriedBucket} {b : NewBucket}

theorem triedOf_of_mem (h : AddrManOk pending s) (hmem : n ∈ s.vvTried k) : triedOf s n = true := by
  by_contra hnot
  have hcount := h.tried n
  rw [if_neg hnot] at hcount
  have hpositive : 0 < (s.vvTried k).count n := count_pos_iff.mpr hmem
  have hle : (s.vvTried k).count n ≤ triedCount s.vvTried n :=
    Finset.single_le_sum (f := fun b => (s.vvTried b).count n) (fun _ _ => Nat.zero_le _)
      (Finset.mem_univ k)
  omega

theorem mem_mapInfo_of_tried (h : AddrManOk pending s) (hmem : n ∈ s.vvTried k) :
    ∃ info, s.mapInfo.lookup n = some info ∧ info.fInTried = true := by
  have htried := triedOf_of_mem h hmem
  cases hlookup : s.mapInfo.lookup n with
  | some info => exact ⟨info, rfl, (triedOf_of_lookup hlookup).symm.trans htried⟩
  | none =>
    rw [triedOf, hlookup] at htried
    cases htried

variable {mapInfo : Table ℕ CAddrInfo} {l : List ℕ} {nRnd : ℕ} {nTime : ℤ}

/-- The loop shuffles the bucket, and the position that it picks lies in it. -/
theorem selectTriedFrom_spec (r : ℕ → ℕ) (rounds i : ℕ) (vTried : List ℕ) (nOldest : Option (ℕ × ℕ))
    (hknown : ∀ n ∈ vTried, ∃ info, mapInfo.lookup n = some info)
    (holdest : ∀ nOld nPos, nOldest = some (nOld, nPos) →
      nPos < vTried.length ∧ ∃ info, mapInfo.lookup nOld = some info)
    (hsome : nOldest.isSome = true ∨ 0 < rounds ∧ i < vTried.length) :
    ∃ vTried' nOld nPos,
      selectTriedFrom mapInfo r rounds i vTried nOldest = some (vTried', some (nOld, nPos)) ∧
        vTried'.Perm vTried ∧ nPos < vTried.length := by
  induction rounds generalizing i vTried nOldest with
  | zero =>
    have hstarted := hsome.resolve_right fun h => absurd h.1 (Nat.lt_irrefl 0)
    obtain ⟨⟨nOld, nPos⟩, rfl⟩ := isSome_iff_exists.mp hstarted
    exact ⟨vTried, nOld, nPos, rfl, List.Perm.refl _, (holdest nOld nPos rfl).1⟩
  | succ rounds ih =>
    unfold selectTriedFrom
    by_cases hi : i < vTried.length
    · rw [if_pos hi]
      have hpos : getRandInt (r i) (vTried.length - i) + i < vTried.length := by
        have hlt : getRandInt (r i) (vTried.length - i) < vTried.length - i :=
          getRandInt_lt (Nat.sub_pos_of_lt hi)
        omega
      dsimp only
      generalize getRandInt (r i) (vTried.length - i) + i = nPos at hpos ⊢
      rw [getElem?_eq_getElem hpos, getElem?_eq_getElem hi]
      dsimp only [bind_eq_bind, bind_some]
      have hperm := @set_set_perm _ vTried nPos i hpos hi
      have hlength := hperm.length_eq
      have hfirst := hknown vTried[nPos] (getElem_mem hpos)
      generalize vTried[nPos] = nTemp at hperm hlength hfirst ⊢
      generalize (vTried.set nPos vTried[i]).set i nTemp = vTried' at hperm hlength ⊢
      have hknown' : ∀ n ∈ vTried', ∃ info, mapInfo.lookup n = some info :=
        fun n hn => hknown n (hperm.mem_iff.mp hn)
      have hlater {nOldest' : Option (ℕ × ℕ)}
          (hor : nOldest' = some (nTemp, nPos) ∨ nOldest.isSome = true ∧ nOldest' = nOldest) :
          ∃ vTried'' nOld nPos,
            selectTriedFrom mapInfo r rounds (i + 1) vTried' nOldest' =
              some (vTried'', some (nOld, nPos)) ∧ vTried''.Perm vTried ∧
              nPos < vTried.length := by
        have hoth : nOldest'.isSome = true := by
          rcases hor with heq | ⟨hstarted, heq⟩
          · rw [heq]
            rfl
          · rw [heq]
            exact hstarted
        have holdest' : ∀ nOld nPos, nOldest' = some (nOld, nPos) →
            nPos < vTried'.length ∧ ∃ info, mapInfo.lookup nOld = some info := by
          intro nOld nPos' hsame
          rw [hlength]
          rcases hor with heq | ⟨-, heq⟩
          · cases heq.symm.trans hsame
            exact ⟨hpos, hfirst⟩
          · exact holdest nOld nPos' (heq.symm.trans hsame)
        obtain ⟨vTried'', nOld, nPos', hrun, hperm', hlt⟩ :=
          ih (i + 1) vTried' nOldest' hknown' holdest' (Or.inl hoth)
        exact ⟨vTried'', nOld, nPos', hrun, hperm'.trans hperm, hlength ▸ hlt⟩
      cases nOldest with
      | none => exact hlater (Or.inl rfl)
      | some old =>
        obtain ⟨nOld, nPosOld⟩ := old
        obtain ⟨infoOld, hlookupOld⟩ := (holdest nOld nPosOld rfl).2
        obtain ⟨infoTemp, hlookupTemp⟩ := hfirst
        dsimp only
        rw [hlookupTemp, hlookupOld, bind_some, bind_some]
        split
        · exact hlater (Or.inl rfl)
        · exact hlater (Or.inr ⟨rfl, rfl⟩)
    · rw [if_neg hi]
      have hstarted := hsome.resolve_right fun h => hi h.2
      obtain ⟨⟨nOld, nPos⟩, rfl⟩ := isSome_iff_exists.mp hstarted
      exact ⟨vTried, nOld, nPos, rfl, List.Perm.refl _, (holdest nOld nPos rfl).1⟩

theorem selectTried_spec (r : ℕ → ℕ) (k : TriedBucket)
    (hknown : ∀ n ∈ s.vvTried k, ∃ info, s.mapInfo.lookup n = some info)
    (hne : 0 < (s.vvTried k).length) : ∃ vTried nPos,
      s.selectTried r k =
        some (some nPos, { s with vvTried := update s.vvTried k vTried }) ∧
      vTried.Perm (s.vvTried k) ∧ nPos < vTried.length := by
  obtain ⟨vTried, nOld, nPos, hrun, hperm, hlt⟩ :=
    selectTriedFrom_spec r ADDRMAN_TRIED_ENTRIES_INSPECT_ON_EVICT 0 (s.vvTried k) none hknown
      (fun nOld nPos hnone => by cases hnone) (Or.inr ⟨by decide, hne⟩)
  refine ⟨vTried, nPos, ?_, hperm, hperm.length_eq ▸ hlt⟩
  rw [selectTried, hrun]
  rfl

def promoted (info : CAddrInfo) : CAddrInfo := { info with nRefCount := 0, fInTried := true }

def demoted (info : CAddrInfo) : CAddrInfo := { info with nRefCount := 1, fInTried := false }

theorem newCount_eraseAll (vvNew : NewBucket → Finset ℕ) (n m : ℕ) :
    newCount (fun b => (vvNew b).erase n) m = if m = n then 0 else newCount vvNew m := by
  unfold newCount
  split
  · next hm =>
    rw [Finset.card_eq_zero, Finset.filter_eq_empty_iff]
    intro b _ hmem
    exact (Finset.ne_of_mem_erase hmem) hm
  · next hm =>
    refine congrArg Finset.card (Finset.filter_congr fun b _ => ?_)
    rw [Finset.mem_erase, and_iff_right hm]

/-- An entry that has become tried. -/
theorem EntryOk.promoted (h : EntryOk info) (hsuccess : info.nLastSuccess ≠ 0) :
    EntryOk (promoted info) :=
  ⟨h.lastTry, h.lastSuccess, fun _ => ⟨hsuccess, rfl⟩, nofun⟩

/-- An entry that has lost its tried place. -/
theorem EntryOk.demoted (h : EntryOk info) : EntryOk (demoted info) :=
  ⟨h.lastTry, h.lastSuccess, nofun, fun _ =>
    ⟨Int.one_pos, (by decide : (1 : ℤ) ≤ ADDRMAN_NEW_BUCKETS_PER_ADDRESS)⟩⟩

section

variable (h : AddrManOk noPending s) (hlookup : s.mapInfo.lookup n = some info)
  (huntried : info.fInTried = false) (hsuccess : info.nLastSuccess ≠ 0)
include h hlookup huntried hsuccess

theorem AddrManOk.promote {k : TriedBucket} : AddrManOk noPending { s with
      mapInfo := s.mapInfo.insert n (promoted info)
      vvTried := update s.vvTried k (s.vvTried k ++ [n])
      vvNew := fun b => (s.vvNew b).erase n
      nTried := s.nTried + 1
      nNew := s.nNew - 1 } := by
  have hlookup' (m : ℕ) : (s.mapInfo.insert n (promoted info)).lookup m =
      if m = n then some (promoted info) else s.mapInfo.lookup m :=
    lookup_insert_ite m n _ _
  have hmap {β : Type} (g : CAddrInfo → β) (hg : g (promoted info) = g info) (m : ℕ) :
      ((s.mapInfo.insert n (promoted info)).lookup m).map g = (s.mapInfo.lookup m).map g := by
    rw [hlookup']
    split
    · next hm => rw [hm, hlookup, map_some, map_some, hg]
    · rfl
  have hflag (m : ℕ) : (((s.mapInfo.insert n (promoted info)).lookup m).map
      fInTried).getD false = if m = n then true else triedOf s m := by
    rw [hlookup']
    split <;> rfl
  refine h.of_tables (fun m z => ?_) (hmap _ rfl) (fun m => ?_) (fun m => ?_)
    (fun m info' hinfo => ?_) ?_ ?_
  · exact (iff_of_eq (congrArg (· = some z) (hmap _ rfl m))).trans (h.positions m z)
  · rw [newCount_eraseAll, hlookup']
    split
    · rfl
    · exact h.refs m
  · have hcount := triedCount_update s.vvTried k (s.vvTried k ++ [n]) m
    rw [count_append, count_singleton, h.tried m] at hcount
    rw [hflag]
    by_cases hm : m = n
    · rw [hm, triedOf_of_lookup hlookup, huntried] at hcount
      simp only [beq_self_eq_true, if_true, Bool.false_eq_true, if_false] at hcount
      rw [if_pos hm, if_pos rfl, hm]
      omega
    · have hne : (n == m) = false := by simpa using Ne.symm hm
      simp only [hne, Bool.false_eq_true, if_false] at hcount
      rw [if_neg hm]
      omega
  · rw [hlookup'] at hinfo
    split at hinfo
    · cases hinfo
      exact (h.entries n info hlookup).promoted hsuccess
    · exact h.entries m info' hinfo
  · rw [total_insert, h.nTried, card_triedSet, hlookup]
    simp [triedOne, promoted, huntried]
  · rw [total_insert, h.nNew, card_newSet, hlookup]
    simp [newOne, promoted, huntried]

theorem AddrManOk.replace {b : NewBucket} {nOld : ℕ} {infoOld : CAddrInfo}
    (hold : s.mapInfo.lookup nOld = some infoOld) (htried : infoOld.fInTried = true)
    (hcount : ∀ m, l.count m + only nOld m = (s.vvTried k).count m + only n m) :
    AddrManOk noPending { s with
      mapInfo := (s.mapInfo.insert nOld (demoted infoOld)).insert n (promoted info)
      vvTried := update s.vvTried k l
      vvNew := update (fun b => (s.vvNew b).erase n) b
        (insert nOld ((s.vvNew b).erase n)) } := by
  have hne : nOld ≠ n := by
    rintro rfl
    cases hlookup.symm.trans hold
    rw [huntried] at htried
    cases htried
  have hlookup' (m : ℕ) : ((s.mapInfo.insert nOld (demoted infoOld)).insert n
      (promoted info)).lookup m = if m = n then some (promoted info)
        else if m = nOld then some (demoted infoOld) else s.mapInfo.lookup m := by
    rw [lookup_insert_ite, lookup_insert_ite]
  have hmap {β : Type} (g : CAddrInfo → β) (hg : ∀ flag count info',
      g { info' with fInTried := flag, nRefCount := count } = g info') (m : ℕ) :
      (((s.mapInfo.insert nOld (demoted infoOld)).insert n (promoted info)).lookup m).map g =
        (s.mapInfo.lookup m).map g := by
    rw [hlookup']
    split
    · next hm =>
      rw [hm, hlookup, map_some]
      exact congrArg some (hg true 0 info)
    · split
      · next hm =>
        rw [hm, hold, map_some]
        exact congrArg some (hg false 1 infoOld)
      · rfl
  have hflag (m : ℕ) : ((((s.mapInfo.insert nOld (demoted infoOld)).insert n
      (promoted info)).lookup m).map fInTried).getD false =
        if m = n then true else if m = nOld then false else triedOf s m := by
    rw [hlookup']
    split
    · rfl
    · split <;> rfl
  have hn : triedOf s n = false := (triedOf_of_lookup hlookup).trans huntried
  have hnOld : triedOf s nOld = true := (triedOf_of_lookup hold).trans htried
  have hlast : (s.mapInfo.insert nOld (demoted infoOld)).lookup n = some info := by
    rw [lookup_insert_ite, if_neg hne.symm, hlookup]
  refine h.of_tables (fun m z => ?_) (hmap _ fun _ _ _ => rfl) (fun m => ?_)
    (fun m => ?_) (fun m info' hinfo => ?_) ?_ ?_
  · exact (iff_of_eq (congrArg (· = some z) (hmap _ (fun _ _ _ => rfl) m))).trans
      (h.positions m z)
  · have hnotIn : nOld ∉ (s.vvNew b).erase n := fun hmem =>
      h.not_mem_new hnOld b (Finset.mem_of_mem_erase hmem)
    have hinsert := @newCount_insert nOld (fun b => (s.vvNew b).erase n) b hnotIn m
    have href := h.refs m
    unfold refOf noPending at href
    rw [hinsert, newCount_eraseAll, hlookup']
    unfold only noPending
    by_cases hm : m = n
    · rw [if_pos hm, if_pos hm, if_neg (hm ▸ hne.symm)]
      rfl
    · rw [if_neg hm, if_neg hm]
      by_cases hmOld : m = nOld
      · have hzero := ((h.entries nOld infoOld hold).tried htried).2
        rw [hmOld, hold] at href
        dsimp only [map_some, getD_some] at href
        rw [if_pos hmOld, if_pos hmOld, hmOld]
        dsimp only [map_some, getD_some, demoted]
        omega
      · rw [if_neg hmOld, if_neg hmOld, Nat.add_zero, href]
  · have hupdate := triedCount_update s.vvTried k l m
    have hl := hcount m
    rw [h.tried m] at hupdate
    rw [hflag]
    unfold only at hl
    by_cases hm : m = n
    · rw [if_pos hm, if_neg (hm ▸ hne.symm)] at hl
      rw [hm, hn, if_neg Bool.false_ne_true] at hupdate
      rw [if_pos hm, if_pos rfl, hm]
      rw [hm] at hl
      omega
    · rw [if_neg hm] at hl
      rw [if_neg hm]
      by_cases hmOld : m = nOld
      · rw [if_pos hmOld, hmOld] at hl
        rw [hmOld, hnOld, if_pos rfl] at hupdate
        rw [if_pos hmOld, if_neg Bool.false_ne_true, hmOld]
        omega
      · rw [if_neg hmOld] at hl
        rw [if_neg hmOld]
        omega
  · rw [hlookup'] at hinfo
    split at hinfo
    · cases hinfo
      exact (h.entries n info hlookup).promoted hsuccess
    · split at hinfo
      · cases hinfo
        exact (h.entries nOld infoOld hold).demoted
      · exact h.entries m info' hinfo
  · rw [total_insert, total_insert, h.nTried, card_triedSet, hlast, hold]
    simp [triedOne, promoted, demoted, huntried, htried]
  · rw [total_insert, total_insert, h.nNew, card_newSet, hlast, hold]
    simp [newOne, promoted, demoted, huntried, htried]

end

variable (env : AddrEnv)

/-- `MakeTried` finds an entry that is new in the given bucket and has been reached. -/
theorem makeTried_spec (r : ℕ → ℕ) (h : AddrManOk noPending s) (hmem : n ∈ s.vvNew b)
    (hsuccess : ∀ info, s.mapInfo.lookup n = some info → info.nLastSuccess ≠ 0) :
    ∃ s', s.makeTried env r n b = some s' ∧ AddrManOk noPending s' := by
  obtain ⟨info, hlookup⟩ := mem_mapInfo_of_ref h hmem
  have hguard : (guard (n ∈ s.vvNew b) : Option Unit) = some () := if_pos hmem
  have huntried : info.fInTried = false := by
    by_contra htried
    have htriedOf := (triedOf_of_lookup hlookup).trans (Bool.not_eq_false _ ▸ htried)
    exact h.not_mem_new htriedOf b hmem
  have hzero : info.nRefCount - ((Finset.univ.filter fun b => n ∈ s.vvNew b).card : ℤ) = 0 := by
    have href := h.refs n
    rw [refOf_of_lookup hlookup] at href
    unfold newCount noPending at href
    omega
  rw [makeTried, hguard, hlookup]
  dsimp only [bind_eq_bind, bind_some]
  rw [hzero]
  rw [modifyInfo_eq (s := { s with vvNew := fun b => (s.vvNew b).erase n, nNew := s.nNew - 1 })
    hlookup]
  generalize env.getTriedBucket info = k
  have hinserted (m : ℕ) : (s.mapInfo.insert n { info with nRefCount := 0 }).lookup m =
      if m = n then some { info with nRefCount := 0 } else s.mapInfo.lookup m :=
    lookup_insert_ite m n _ _
  by_cases hroom : (s.vvTried k).length < ADDRMAN_TRIED_BUCKET_SIZE
  · rw [if_pos hroom, modifyInfo_eq ((hinserted n).trans (if_pos rfl)), insert_insert]
    have hok := h.promote (k := k) hlookup huntried (hsuccess info hlookup)
    exact ⟨_, rfl, hok⟩
  · rw [if_neg hroom]
    generalize hs1 : ({ s with
      vvNew := fun b => (s.vvNew b).erase n
      nNew := s.nNew - 1
      mapInfo := s.mapInfo.insert n { info with nRefCount := 0 } } : CAddrMan) = s1
    have hvvTried : s1.vvTried = s.vvTried := by rw [← hs1]
    have hmapInfo (m : ℕ) : s1.mapInfo.lookup m =
        if m = n then some { info with nRefCount := 0 } else s.mapInfo.lookup m := by
      rw [← hs1]
      exact hinserted m
    have hother {m : ℕ} (hm : m ∈ s.vvTried k) : m ≠ n := by
      rintro rfl
      have htried := triedOf_of_mem h hm
      rw [triedOf_of_lookup hlookup, huntried] at htried
      cases htried
    obtain ⟨vTried, nPos, hselect, hperm, hpos⟩ := selectTried_spec (s := s1) r k
      (fun m hm => by
        rw [hvvTried] at hm
        obtain ⟨infoOld, hold, -⟩ := mem_mapInfo_of_tried h hm
        rw [hmapInfo, if_neg (hother hm)]
        exact ⟨infoOld, hold⟩)
      (by
        rw [hvvTried]
        exact Nat.lt_of_lt_of_le (by decide) (Nat.le_of_not_lt hroom))
    rw [hselect]
    dsimp only [bind_some]
    rw [update_self, getElem?_eq_getElem hpos]
    dsimp only [bind_some]
    rw [hvvTried] at hperm
    have hOld : vTried[nPos] ∈ s.vvTried k := hperm.mem_iff.mp (getElem_mem hpos)
    have hcount (m : ℕ) := @count_set n vTried nPos hpos m
    generalize vTried[nPos] = nOld at hOld hcount ⊢
    obtain ⟨infoOld, hold, htried⟩ := mem_mapInfo_of_tried h hOld
    have holdLookup : s1.mapInfo.lookup nOld = some infoOld := by
      rw [hmapInfo, if_neg (hother hOld)]
      exact hold
    rw [holdLookup, bind_some, modifyInfo_eq (n := nOld)
      (s := { s1 with vvTried := update s1.vvTried k vTried }) holdLookup]
    generalize hs2 : ({ s1 with
      vvTried := update s1.vvTried k vTried
      mapInfo := s1.mapInfo.insert nOld { infoOld with fInTried := false, nRefCount := 1 } } :
        CAddrMan) = s2
    obtain ⟨b', hb'⟩ : ∃ b',
        (if (s2.vvNew (env.getNewBucket infoOld infoOld.source)).card < ADDRMAN_NEW_BUCKET_SIZE then
          s2.insertNew (env.getNewBucket infoOld infoOld.source) nOld
        else s2.insertNew b nOld) = s2.insertNew b' nOld := by
      split
      · exact ⟨_, rfl⟩
      · exact ⟨b, rfl⟩
    have hlast : (s2.insertNew b' nOld).mapInfo.lookup n = some { info with nRefCount := 0 } := by
      rw [← hs2]
      dsimp only [CAddrMan.insertNew]
      rw [lookup_insert_ite, if_neg (hother hOld).symm, hmapInfo, if_pos rfl]
    have hmaps : (((s.mapInfo.insert n { info with nRefCount := 0 }).insert nOld
        (demoted infoOld)).insert n (promoted info)) =
        (s.mapInfo.insert nOld (demoted infoOld)).insert n (promoted info) := by
      rw [insert_insert_of_ne _ (hother hOld).symm, insert_insert]
    have hok := h.replace (k := k) (b := b') (l := vTried.set nPos n) hlookup huntried
      (hsuccess info hlookup) hold htried (fun m => by rw [← hperm.count_eq m]; exact hcount m)
    rw [hb', modifyInfo_eq hlast]
    refine ⟨_, rfl, ?_⟩
    rw [← hmaps] at hok
    subst hs2 hs1
    dsimp only [CAddrMan.insertNew]
    rw [update_self, update_idem, sub_add_cancel]
    exact hok

/-! ## New entries and new references -/

/-- A new entry comes, with a reference that no bucket has yet. -/
theorem AddrManOk.create (h : AddrManOk noPending s) (hunknown : s.mapAddr.lookup info.ip = none)
    (hpos : info.nRandomPos = s.vRandom.length) (hone : info.nRefCount = 1)
    (huntried : info.fInTried = false) (hentry : EntryOk info) :
    AddrManOk (only s.nIdCount) { s with
      nIdCount := s.nIdCount + 1
      mapInfo := s.mapInfo.insert s.nIdCount info
      mapAddr := s.mapAddr.insert info.ip s.nIdCount
      vRandom := s.vRandom ++ [s.nIdCount]
      nNew := s.nNew + 1 } := by
  have hfresh : s.nIdCount ∉ s.mapInfo := fun hmem => Nat.lt_irrefl _ (h.ids _ hmem)
  have hnone : s.mapInfo.lookup s.nIdCount = none := lookup_eq_none.mpr hfresh
  have hlookup (m : ℕ) : (s.mapInfo.insert s.nIdCount info).lookup m =
      if m = s.nIdCount then some info else s.mapInfo.lookup m := lookup_insert_ite m _ _ _
  have hmap {β : Type} (g : CAddrInfo → β) (m : ℕ) :
      ((s.mapInfo.insert s.nIdCount info).lookup m).map g =
        if m = s.nIdCount then some (g info) else (s.mapInfo.lookup m).map g := by
    rw [hlookup]
    split <;> rfl
  generalize hs' : ({ s with
    nIdCount := s.nIdCount + 1
    mapInfo := s.mapInfo.insert s.nIdCount info
    mapAddr := s.mapAddr.insert info.ip s.nIdCount
    vRandom := s.vRandom ++ [s.nIdCount]
    nNew := s.nNew + 1 } : CAddrMan) = s'
  have htriedOf (m : ℕ) : triedOf s' m = triedOf s m := by
    subst hs'
    unfold triedOf
    rw [hmap]
    split
    · next hm =>
      rw [hm, hnone, huntried]
      rfl
    · rfl
  have hunnamed (m : ℕ) : ipOf s m ≠ some info.ip := by
    intro hsome
    rw [(h.names m info.ip).mp hsome] at hunknown
    cases hunknown
  have hpositions : Placed s' := by
    subst hs'
    intro m z
    rw [posOf, hmap, hpos]
    by_cases hm : m = s.nIdCount
    · subst hm
      rw [if_pos rfl]
      constructor
      · intro hz
        cases hz
        exact ⟨s.vRandom.length, rfl, getElem?_concat_length⟩
      · intro hi
        obtain ⟨i, rfl, hi⟩ := hi
        rw [getElem?_append] at hi
        split at hi
        · exact absurd (Placed.mem h.positions hi).1 hfresh
        · next hge =>
          obtain ⟨hlt, -⟩ := List.getElem?_eq_some_iff.mp hi
          rw [length_singleton] at hlt
          exact congrArg some (by omega)
    · rw [if_neg hm]
      refine (h.positions m z).trans (exists_congr fun i => and_congr_right fun _ => ?_)
      rw [getElem?_append]
      split
      · rfl
      · next hge =>
        rw [getElem?_eq_none (Nat.le_of_not_lt hge)]
        refine iff_of_false (some_ne_none m).symm fun hi => hm ?_
        exact mem_singleton.mp (mem_of_getElem? hi)
  refine ⟨fun m hm => ?_, hpositions, fun m addr => ?_, fun m => ?_, fun m => ?_,
    fun m info' hinfo => ?_, ?_, ?_⟩
  · subst hs'
    rcases mem_insert.mp hm with rfl | hmem
    · exact Nat.lt_succ_self _
    · exact Nat.lt_succ_of_lt (h.ids m hmem)
  · subst hs'
    rw [ipOf, hmap, lookup_insert_ite]
    by_cases hm : m = s.nIdCount
    · rw [if_pos hm, hm]
      split
      · next haddr =>
        rw [haddr]
        exact iff_of_true rfl rfl
      · next haddr =>
        refine iff_of_false (fun hsome => haddr (Option.some.inj hsome).symm) fun hsome => ?_
        obtain ⟨old, hold, -⟩ := map_eq_some_iff.mp ((h.names _ addr).mpr hsome)
        exact hfresh (mem_of_lookup_eq_some hold)
    · rw [if_neg hm]
      split
      · next haddr =>
        rw [haddr]
        exact iff_of_false (hunnamed m) fun hsome => hm (Option.some.inj hsome).symm
      · exact h.names m addr
  · have href := h.refs m
    have hrefOf : refOf s' m = if m = s.nIdCount then 1 else refOf s m := by
      subst hs'
      rw [refOf, hmap, hone]
      split <;> rfl
    have hvvNew : s'.vvNew = s.vvNew := by rw [← hs']
    rw [only, hrefOf, hvvNew]
    by_cases hm : m = s.nIdCount
    · have hzero : refOf s m = 0 := by
        rw [refOf, hm, hnone]
        rfl
      rw [if_pos hm, if_pos hm]
      omega
    · rw [if_neg hm, if_neg hm]
      exact href
  · have hvvTried : s'.vvTried = s.vvTried := by rw [← hs']
    rw [htriedOf, hvvTried]
    exact h.tried m
  · subst hs'
    rw [hlookup] at hinfo
    split at hinfo
    · cases hinfo
      exact hentry
    · exact h.entries m info' hinfo
  · subst hs'
    rw [card_triedSet, total_insert, h.nTried, card_triedSet, hnone]
    simp [triedOne, huntried]
  · subst hs'
    rw [card_newSet, total_insert, h.nNew, card_newSet, hnone]
    simp [newOne, huntried]

/-- The reference gets its place in the bucket, which may first lose another entry. -/
theorem addReference_spec (nNow : ℤ) (r : AddrRandom) (h : AddrManOk (only n)
      (s.modifyInfo n fun info => { info with nRefCount := info.nRefCount + 1 }))
    (hnew : n ∉ s.vvNew b) :
    ∃ s', s.addReference nNow r b n = some s' ∧ AddrManOk noPending s' := by
  unfold addReference
  have hvvNew : (s.modifyInfo n fun info =>
      { info with nRefCount := info.nRefCount + 1 }).vvNew = s.vvNew := by
    obtain ⟨mapInfo, heq⟩ := modifyInfo_rest n
      (fun info => { info with nRefCount := info.nRefCount + 1 }) s
    rw [heq]
  dsimp only
  generalize (s.modifyInfo n fun info => { info with nRefCount := info.nRefCount + 1 }) = s1
    at h hvvNew ⊢
  rw [← hvvNew] at hnew
  split
  · next hfull =>
    have hne : (s1.vvNew b).Nonempty := by
      rw [← Finset.card_pos, hfull]
      exact (by decide : 0 < ADDRMAN_NEW_BUCKET_SIZE)
    have hothers : ∀ m ∈ s1.vvNew b, only n m = 0 := by
      intro m hm
      refine if_neg ?_
      rintro rfl
      exact hnew hm
    obtain ⟨s2, dropped, hrun, hok, hvvNew2⟩ := shrinkNew_spec nNow r.shrink h hne hothers
    rw [hrun]
    refine ⟨_, rfl, hok.insertNew fun hmem => hnew ?_⟩
    rw [hvvNew2, update_self] at hmem
    exact Finset.mem_of_mem_erase hmem
  · exact ⟨_, rfl, h.insertNew hnew⟩

/-! ## The operations -/

theorem find_eq_some {addr : CNetAddr} (hfind : s.find addr = some (n, info)) :
    s.mapAddr.lookup addr = some n ∧ s.mapInfo.lookup n = some info := by
  obtain ⟨nId, hname, hrest⟩ := bind_eq_some_iff.mp hfind
  obtain ⟨info', hlookup, hpair⟩ := bind_eq_some_iff.mp hrest
  cases hpair
  exact ⟨hname, hlookup⟩

theorem findBucket_eq_none (h : s.findBucket nRnd n = none) (b : NewBucket) :
    n ∉ s.vvNew b := by
  rw [findBucket, find?_eq_none] at h
  have hnot := h b (by
    refine List.mem_map.mpr ⟨(b.val + (ADDRMAN_NEW_BUCKET_COUNT - nRnd % ADDRMAN_NEW_BUCKET_COUNT))
      % ADDRMAN_NEW_BUCKET_COUNT, mem_range.mpr (Nat.mod_lt _ (by decide)), Fin.ext ?_⟩
    have hb := b.isLt
    rw [Fin.val_ofNat]
    unfold ADDRMAN_NEW_BUCKET_COUNT at hb ⊢
    omega)
  exact fun hmem => hnot (decide_eq_true hmem)

theorem findBucket_eq_some (h : s.findBucket nRnd n = some b) : n ∈ s.vvNew b := by
  have hmem := find?_some h
  exact of_decide_eq_true hmem

theorem good_spec (nNow : ℤ) (r : AddrRandom) (addr : CService) (htime : 0 < nTime)
    (h : AddrManOk noPending s) :
    ∃ s', s.good env nNow r addr nTime = some s' ∧ AddrManOk noPending s' := by
  unfold good
  cases hfind : s.find addr.ip with
  | none => exact ⟨s, rfl, h⟩
  | some found =>
    obtain ⟨nId, info⟩ := found
    obtain ⟨-, hlookup⟩ := find_eq_some hfind
    dsimp only
    split
    · exact ⟨s, rfl, h⟩
    · have hok : AddrManOk noPending (s.modifyInfo nId fun info =>
          { info with
            nLastSuccess := nTime
            nLastTry := nTime
            nTime := toUint nTime
            nAttempts := 0 }) :=
        h.modifyInfo (fun _ => rfl) (fun _ => rfl) (fun _ => rfl) (fun _ => rfl)
          fun info hinfo => ⟨Int.le_of_lt htime, Int.le_of_lt htime,
            fun htrue => ⟨Int.ne_of_gt htime, (hinfo.tried htrue).2⟩, hinfo.untried⟩
      have hlookup1 := lookup_modifyInfo nId (fun info =>
          { info with
            nLastSuccess := nTime
            nLastTry := nTime
            nTime := toUint nTime
            nAttempts := 0 }) s nId
      rw [if_pos rfl, hlookup] at hlookup1
      generalize s.modifyInfo nId (fun info =>
          { info with
            nLastSuccess := nTime
            nLastTry := nTime
            nTime := toUint nTime
            nAttempts := 0 }) = s1 at hok hlookup1 ⊢
      split
      · exact ⟨s1, rfl, hok⟩
      · next huntried =>
        cases hbucket : s1.findBucket (getRandInt r.self ADDRMAN_NEW_BUCKET_COUNT) nId with
        | some b =>
          refine makeTried_spec env r.select hok (findBucket_eq_some hbucket) fun info' hinfo => ?_
          cases hlookup1.symm.trans hinfo
          exact Int.ne_of_gt htime
        | none =>
          -- An entry that is not tried has a reference, so a bucket contains it.
          have hpositive := ((hok.entries nId _ hlookup1).untried (Bool.not_eq_true _ ▸ huntried)).1
          have href := hok.refs nId
          have hzero : newCount s1.vvNew nId = 0 := by
            rw [newCount, Finset.card_eq_zero, Finset.filter_eq_empty_iff]
            exact fun b _ => findBucket_eq_none hbucket b
          rw [refOf_of_lookup hlookup1] at href
          unfold noPending at href
          omega

theorem attempt_spec (addr : CService) (htime : 0 ≤ nTime) (h : AddrManOk noPending s) :
    AddrManOk noPending (s.attempt addr nTime) := by
  unfold attempt
  split
  · exact h
  · split
    · exact h
    · exact h.modifyInfo (fun _ => rfl) (fun _ => rfl) (fun _ => rfl) (fun _ => rfl)
        fun info hinfo => ⟨htime, hinfo.lastSuccess, hinfo.tried, hinfo.untried⟩

theorem connected_spec (addr : CService) (nTime : ℤ) (h : AddrManOk noPending s) :
    AddrManOk noPending (s.connected addr nTime) := by
  unfold connected
  split
  · exact h
  · split
    · exact h
    · refine h.modifyInfo (fun _ => ?_) (fun _ => ?_) (fun _ => ?_) (fun _ => ?_)
        fun info hinfo => ?_
      · split <;> rfl
      · split <;> rfl
      · split <;> rfl
      · split <;> rfl
      · split
        · exact ⟨hinfo.lastTry, hinfo.lastSuccess, hinfo.tried, hinfo.untried⟩
        · exact hinfo

/-- `Add_` changes only the time and the services of an entry that exists. -/
theorem updateEntry_eq (nNow : ℤ) (addr : CAddress) (nTimePenalty : ℤ) (info : CAddrInfo) :
    ∃ nTime nServices, updateEntry nNow addr nTimePenalty info =
      { info with nTime := nTime, nServices := nServices } := by
  unfold updateEntry
  generalize (if nNow - addr.nTime < 24 * 60 * 60 then 60 * 60 else 24 * 60 * 60 : ℤ) = interval
  dsimp only
  split <;> exact ⟨_, _, rfl⟩

theorem addToBucket_spec (nNow : ℤ) (r : AddrRandom) (source : CNetAddr)
    (h : AddrManOk noPending s) (hlookup : s.mapInfo.lookup n = some info)
    (huntried : info.fInTried = false) (hroom : info.nRefCount < ADDRMAN_NEW_BUCKETS_PER_ADDRESS) :
    ∃ s', s.addToBucket env nNow r source n info = some s' ∧ AddrManOk noPending s' := by
  unfold addToBucket
  dsimp only
  split
  · exact ⟨s, rfl, h⟩
  · next hnew => exact addReference_spec nNow r (h.addPending hlookup huntried hroom) hnew

theorem add_spec (nNow : ℤ) (r : AddrRandom) (addr : CAddress) (source : CNetAddr)
    (nTimePenalty : ℤ) (h : AddrManOk noPending s) :
    ∃ fNew s', s.add env nNow r addr source nTimePenalty = some (fNew, s') ∧
      AddrManOk noPending s' := by
  unfold add
  split
  · exact ⟨false, s, rfl, h⟩
  · cases hfind : s.find addr.ip with
    | some found =>
      obtain ⟨nId, info⟩ := found
      obtain ⟨-, hlookup⟩ := find_eq_some hfind
      dsimp only
      obtain ⟨nTime, nServices, hupdate⟩ := updateEntry_eq nNow addr nTimePenalty info
      have hok : AddrManOk noPending (s.modifyInfo nId fun info' =>
          { info' with nTime := nTime, nServices := nServices }) :=
        h.modifyInfo (fun _ => rfl) (fun _ => rfl) (fun _ => rfl) (fun _ => rfl)
          fun info hinfo => ⟨hinfo.lastTry, hinfo.lastSuccess, hinfo.tried, hinfo.untried⟩
      rw [modifyInfo_eq hlookup] at hok ⊢
      rw [← hupdate] at hok
      have hlookup1 : (s.mapInfo.insert nId (updateEntry nNow addr nTimePenalty info)).lookup nId =
          some (updateEntry nNow addr nTimePenalty info) := lookup_insert _
      generalize updateEntry nNow addr nTimePenalty info = info1 at hok hlookup1 ⊢
      split
      · exact ⟨false, _, rfl, hok⟩
      · split
        · exact ⟨false, _, rfl, hok⟩
        · next huntried =>
          split
          · exact ⟨false, _, rfl, hok⟩
          · next hcount =>
            split
            · exact ⟨false, _, rfl, hok⟩
            · have huntried' : info1.fInTried = false := Bool.not_eq_true _ ▸ huntried
              have hle := ((hok.entries nId info1 hlookup1).untried huntried').2
              obtain ⟨s', hrun, hok'⟩ := addToBucket_spec env nNow r source hok hlookup1 huntried'
                (lt_of_le_of_ne hle hcount)
              rw [hrun]
              exact ⟨false, s', rfl, hok'⟩
    | none =>
      have hunknown : s.mapAddr.lookup addr.ip = none := by
        cases hname : s.mapAddr.lookup addr.ip with
        | none => rfl
        | some nId =>
          obtain ⟨info, hlookup, -⟩ := map_eq_some_iff.mp ((h.names nId addr.ip).mpr hname)
          rw [CAddrMan.find, hname] at hfind
          dsimp only [bind_eq_bind, bind_some] at hfind
          rw [hlookup] at hfind
          cases hfind
      have hlookup : (s.mapInfo.insert s.nIdCount { ofAddress addr source with
          nRandomPos := s.vRandom.length }).lookup s.nIdCount =
          some { ofAddress addr source with nRandomPos := s.vRandom.length } :=
        lookup_insert _
      have hfresh (b : NewBucket) : s.nIdCount ∉ s.vvNew b := by
        intro hmem
        obtain ⟨info, hinfo⟩ := mem_mapInfo_of_ref h hmem
        exact Nat.lt_irrefl _ (h.ids _ (mem_of_lookup_eq_some hinfo))
      dsimp only [CAddrMan.create]
      rw [modifyInfo_eq (by exact hlookup), insert_insert]
      rw [addToBucket, if_neg (hfresh _)]
      obtain ⟨s', hrun, hok⟩ := addReference_spec (n := s.nIdCount) (s := { s with
          nIdCount := s.nIdCount + 1
          mapInfo := s.mapInfo.insert s.nIdCount { ofAddress addr source with
            nRandomPos := s.vRandom.length
            nTime := toUint (max 0 (addr.nTime - nTimePenalty)) }
          mapAddr := s.mapAddr.insert addr.ip s.nIdCount
          vRandom := s.vRandom ++ [s.nIdCount]
          nNew := s.nNew + 1 }) nNow r (by
        rw [modifyInfo_eq (lookup_insert _), insert_insert]
        exact h.create (by exact hunknown) rfl rfl rfl ⟨le_rfl, le_rfl, nofun, fun _ =>
          ⟨Int.one_pos, (by decide : (1 : ℤ) ≤ ADDRMAN_NEW_BUCKETS_PER_ADDRESS)⟩⟩)
        (hfresh (env.getNewBucket (ofAddress addr source) source))
      rw [show (ofAddress addr source).nTime = addr.nTime from rfl, hrun]
      exact ⟨true, s', rfl, hok⟩

theorem AddrManOk.swap {s' : CAddrMan} {i j : ℕ} (h : AddrManOk pending s)
    (hswapped : Swapped s s' i j) : AddrManOk pending s' := by
  obtain ⟨⟨mapInfo, vRandom, rfl⟩, hentries, hplaced, -, -⟩ := hswapped
  have hmap {β : Type} (g : CAddrInfo → β) (hg : ∀ info, g (unplaced info) = g info) (m : ℕ) :
      (mapInfo.lookup m).map g = (s.mapInfo.lookup m).map g :=
    map_of_unplaced (hentries m) g hg
  refine h.of_entries hplaced (hmap _ fun _ => rfl) (fun m => ?_) (hmap _ fun _ => rfl)
    fun m info hinfo => ?_
  · rw [hmap _ fun _ => rfl]
    exact h.refs m
  · have hsome := hentries m
    rw [hinfo] at hsome
    obtain ⟨old, hold, heq⟩ := map_eq_some_iff.mp hsome.symm
    exact (h.entries m old hold).of_unplaced heq.symm

theorem getAddrFrom_spec (r : ℕ → ℕ) (k n : ℕ) (vAddr : List CAddrInfo)
    (h : AddrManOk pending s) (hroom : n + k ≤ s.vRandom.length) :
    ∃ vAddr' s', getAddrFrom r k n s vAddr = some (vAddr', s') ∧ AddrManOk pending s' := by
  induction k generalizing n s vAddr with
  | zero => exact ⟨vAddr, s, rfl, h⟩
  | succ k ih =>
    have hn : n < s.vRandom.length := by omega
    have hpos : getRandInt (r n) (s.vRandom.length - n) + n < s.vRandom.length := by
      have hlt : getRandInt (r n) (s.vRandom.length - n) < s.vRandom.length - n :=
        getRandInt_lt (Nat.sub_pos_of_lt hn)
      omega
    obtain ⟨s1, hswap, hswapped⟩ := swapRandom_spec h.positions hn hpos
    have hok := h.swap hswapped
    have hn1 : n < s1.vRandom.length := hswapped.length ▸ hn
    obtain ⟨hmem, -⟩ := Placed.mem hok.positions (getElem?_eq_getElem hn1)
    obtain ⟨info, hlookup⟩ := mem_iff.mp hmem
    rw [getAddrFrom, hswap]
    dsimp only [bind_eq_bind, bind_some]
    rw [getElem?_eq_getElem hn1, bind_some, hlookup]
    exact ih (n + 1) (vAddr ++ [info]) hok (by rw [hswapped.length]; omega)

theorem getAddr_spec (r : ℕ → ℕ) (h : AddrManOk pending s) :
    ∃ vAddr s', s.getAddr r = some (vAddr, s') ∧ AddrManOk pending s' := by
  refine getAddrFrom_spec r _ 0 [] h ?_
  unfold ADDRMAN_GETADDR_MAX_PCT
  omega

theorem selectRounds_spec (fTried : Bool) (rounds : List SelectRound) (h : AddrManOk pending s) :
    ∃ result, s.selectRounds fTried rounds = some result := by
  induction rounds with
  | nil => exact ⟨none, rfl⟩
  | cons round rest ih =>
    have hknown : ∀ m ∈ (if fTried then
          s.vvTried (Fin.ofNat _ (getRandInt round.bucket ADDRMAN_TRIED_BUCKET_COUNT))
        else (s.vvNew (Fin.ofNat _ (getRandInt round.bucket ADDRMAN_NEW_BUCKET_COUNT))).sort
          (· ≤ ·)), ∃ info, s.mapInfo.lookup m = some info := by
      intro m hm
      split at hm
      · obtain ⟨info, hlookup, -⟩ := mem_mapInfo_of_tried h hm
        exact ⟨info, hlookup⟩
      · exact mem_mapInfo_of_ref h ((Finset.mem_sort _).mp hm)
    unfold selectRounds
    dsimp only
    generalize (if fTried then
          s.vvTried (Fin.ofNat _ (getRandInt round.bucket ADDRMAN_TRIED_BUCKET_COUNT))
        else (s.vvNew (Fin.ofNat _ (getRandInt round.bucket ADDRMAN_NEW_BUCKET_COUNT))).sort
          (· ≤ ·)) = bucket at hknown ⊢
    split
    · exact ih
    · next hne =>
      have hpos : getRandInt round.position bucket.length < bucket.length :=
        getRandInt_lt (Nat.pos_of_ne_zero hne)
      obtain ⟨info, hlookup⟩ := hknown _ (getElem_mem hpos)
      rw [getElem?_eq_getElem hpos]
      dsimp only [bind_eq_bind, bind_some]
      rw [hlookup]
      split
      · exact ⟨some info, rfl⟩
      · exact ih

theorem AddrManOk.shuffle (h : AddrManOk pending s) (hperm : l.Perm (s.vvTried k)) :
    AddrManOk pending { s with vvTried := update s.vvTried k l } := by
  refine ⟨h.ids, h.positions, h.names, h.refs, fun m => ?_, h.entries, h.nTried, h.nNew⟩
  have hcount := triedCount_update s.vvTried k l m
  rw [hperm.count_eq m, h.tried m] at hcount
  exact Nat.add_right_cancel hcount

end Moves

end Phoenixcoin.Analysis
