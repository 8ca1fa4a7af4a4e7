import Phoenixcoin.Analysis.AddressMoves
import Mathlib.Algebra.BigOperators.Fin

/-!
# Every run of the address manager passes its check

The loops of `Check_` find what the invariant says, and the operations keep the invariant, so
after every run the check returns zero and no assertion has failed.
-/

set_option autoImplicit false

namespace Phoenixcoin.Analysis

open Lib Program CAddrMan List Option Finset

section Check

variable {s : CAddrMan} {n : ℕ} {info : CAddrInfo}

/-! ## The loops of the check -/

section

variable (h : AddrManOk noPending s)
include h

theorem nodup_vRandom : s.vRandom.Nodup := by
  rw [nodup_iff_injective_get]
  intro i j heq
  have hi := (h.positions (s.vRandom.get i) i).mpr ⟨i, rfl, getElem?_eq_getElem i.isLt⟩
  have hj := (h.positions (s.vRandom.get j) j).mpr ⟨j, rfl, getElem?_eq_getElem j.isLt⟩
  rw [heq, hj] at hi
  exact Fin.ext (by exact_mod_cast (Option.some.inj hi).symm)

theorem vRandom_toFinset : s.vRandom.toFinset = s.mapInfo.keys := by
  ext m
  rw [List.mem_toFinset]
  constructor
  · intro hm
    obtain ⟨i, hi⟩ := getElem?_of_mem hm
    exact (Placed.mem h.positions hi).1
  · intro hm
    obtain ⟨info, hlookup⟩ := Finmap.mem_iff.mp hm
    have hpos : posOf s m = some info.nRandomPos := by
      rw [posOf, hlookup]
      rfl
    obtain ⟨i, -, hi⟩ := (h.positions m _).mp hpos
    exact mem_of_getElem? hi

theorem length_vRandom : (s.vRandom.length : ℤ) = s.nTried + s.nNew := by
  have hsplit := card_filter_add_card_filter_not (s := s.mapInfo.keys)
    (fun m => triedOf s m = true)
  have hnew : (s.mapInfo.keys.filter fun m => ¬ triedOf s m = true) = newSet s :=
    filter_congr fun m _ => by rw [Bool.not_eq_true]
  rw [hnew] at hsplit
  rw [h.nTried, h.nNew, ← toFinset_card_of_nodup (nodup_vRandom h), vRandom_toFinset h, ← hsplit]
  exact Nat.cast_add _ _

/-- The first loop accepts an entry and notes it on its side. -/
theorem checkInfo_eq (hlookup : s.mapInfo.lookup n = some info)
    (acc : Finset ℕ × Table ℕ ℤ) : s.checkInfo acc n =
      .ok (if info.fInTried then (insert n acc.1, acc.2)
        else (acc.1, acc.2.insert n info.nRefCount)) := by
  obtain ⟨hlastTry, hlastSuccess, htried, huntried⟩ := h.entries n info hlookup
  have hname : s.mapAddr.lookup info.ip = some n := by
    refine (h.names n info.ip).mp ?_
    rw [ipOf, hlookup]
    rfl
  have hpos : posOf s n = some info.nRandomPos := by
    rw [posOf, hlookup]
    rfl
  obtain ⟨i, hi, hget⟩ := (h.positions n _).mp hpos
  have hlt : i < s.vRandom.length := (List.getElem?_eq_some_iff.mp hget).1
  have hplace : ¬ (info.nRandomPos < 0 ∨ info.nRandomPos ≥ s.vRandom.length ∨
      s.vRandom[info.nRandomPos.toNat]? ≠ some n) := by
    rw [hi, Int.toNat_natCast, hget]
    simp only [ne_eq, not_true_eq_false, or_false]
    omega
  rw [checkInfo, hlookup]
  dsimp only
  rw [hname, getD_some]
  simp only [ne_eq, not_true_eq_false, if_false, if_neg hplace, if_neg (Int.not_lt.mpr hlastTry),
    if_neg (Int.not_lt.mpr hlastSuccess)]
  cases hflag : info.fInTried with
  | true =>
    obtain ⟨hsuccess, hzero⟩ := htried hflag
    rw [if_neg hsuccess, if_neg (not_not.mpr hzero)]
    rfl
  | false =>
    obtain ⟨hpositive, hle⟩ := huntried hflag
    rw [if_neg Bool.false_ne_true, if_neg (by omega), if_neg (Int.ne_of_gt hpositive)]
    rfl

theorem foldlM_checkInfo (ids : List ℕ)
    (hknown : ∀ m ∈ ids, m ∈ s.mapInfo) (acc : Finset ℕ × Table ℕ ℤ) :
    ∃ setTried mapNew, ids.foldlM s.checkInfo acc = .ok (setTried, mapNew) ∧
      (∀ m, m ∈ setTried ↔ m ∈ acc.1 ∨ m ∈ ids ∧ triedOf s m = true) ∧
      ∀ m, mapNew.lookup m =
        if m ∈ ids ∧ triedOf s m = false then some (refOf s m) else acc.2.lookup m := by
  induction ids generalizing acc with
  | nil =>
    refine ⟨acc.1, acc.2, rfl, fun m => ?_, fun m => ?_⟩
    · simp
    · simp
  | cons n ids ih =>
    obtain ⟨info, hlookup⟩ := Finmap.mem_iff.mp (hknown n mem_cons_self)
    have htriedOf := triedOf_of_lookup hlookup
    have hrefOf := refOf_of_lookup hlookup
    obtain ⟨setTried, mapNew, hrun, htried, hnew⟩ := ih
      (fun m hm => hknown m (mem_cons_of_mem _ hm))
      (if info.fInTried then (insert n acc.1, acc.2)
        else (acc.1, acc.2.insert n info.nRefCount))
    refine ⟨setTried, mapNew, ?_, fun m => ?_, fun m => ?_⟩
    · rw [foldlM_cons, checkInfo_eq h hlookup]
      exact hrun
    · rw [htried]
      by_cases hm : m = n
      · subst hm
        cases hflag : info.fInTried <;> simp [htriedOf, hflag]
      · cases hflag : info.fInTried <;> simp [hm]
    · rw [hnew]
      by_cases hm : m = n
      · subst hm
        cases hflag : info.fInTried <;> simp [htriedOf, hflag, hrefOf]
      · cases hflag : info.fInTried <;> simp [hm]

end

theorem foldlM_checkTried (ids : List ℕ) (setTried : Finset ℕ)
    (hcount : ∀ m, ids.count m = if m ∈ setTried then 1 else 0) :
    ids.foldlM checkTried setTried = .ok ∅ := by
  induction ids generalizing setTried with
  | nil =>
    have hempty : setTried = ∅ := by
      refine eq_empty_of_forall_notMem fun m hm => ?_
      have hm' := hcount m
      rw [if_pos hm] at hm'
      cases hm'
    rw [hempty]
    rfl
  | cons n ids ih =>
    have hn : n ∈ setTried := by
      by_contra hnot
      have hn' := hcount n
      rw [if_neg hnot, count_cons_self] at hn'
      cases hn'
    rw [foldlM_cons]
    rw [checkTried, if_neg (not_not.mpr hn)]
    refine ih (setTried.erase n) fun m => ?_
    have hm := hcount m
    by_cases hmn : m = n
    · subst hmn
      rw [count_cons_self, if_pos hn] at hm
      rw [if_neg (notMem_erase m setTried)]
      omega
    · rw [count_cons_of_ne (Ne.symm hmn)] at hm
      rw [hm]
      exact if_congr (by rw [mem_erase, and_iff_right hmn]) rfl rfl

theorem foldlM_checkNew (ids : List ℕ) (mapNew : Table ℕ ℤ)
    (hcount : ∀ m, mapNew.lookup m = if ids.count m = 0 then none else some (ids.count m : ℤ)) :
    ids.foldlM checkNew mapNew = .ok ∅ := by
  induction ids generalizing mapNew with
  | nil =>
    have hempty : mapNew = ∅ := by
      refine Finmap.ext_lookup fun m => ?_
      rw [hcount m]
      rfl
    rw [hempty]
    rfl
  | cons n ids ih =>
    have hn := hcount n
    rw [count_cons_self] at hn
    rw [foldlM_cons]
    rw [checkNew, hn]
    refine ih _ fun m => ?_
    have hm := hcount m
    by_cases hmn : m = n
    · subst hmn
      by_cases hzero : ids.count m = 0
      · rw [if_pos hzero, if_pos (by rw [hzero]; rfl), Table.lookup_erase_ite, if_pos rfl]
      · rw [if_neg hzero, if_neg (by omega), Table.lookup_insert_ite, if_pos rfl]
        exact congrArg some (by omega)
    · rw [count_cons_of_ne (Ne.symm hmn)] at hm
      rw [← hm]
      split
      · rw [Table.lookup_erase_ite, if_neg hmn]
      · rw [Table.lookup_insert_ite, if_neg hmn]

theorem count_triedIds (s : CAddrMan) (m : ℕ) : s.triedIds.count m = triedCount s.vvTried m := by
  rw [triedIds, triedCount, count_flatMap]
  rfl

theorem count_newIds (s : CAddrMan) (m : ℕ) : s.newIds.count m = newCount s.vvNew m := by
  rw [newIds, newCount, count_flatMap, card_filter]
  refine congrArg List.sum (map_congr_left fun b _ => ?_)
  dsimp only [Function.comp_apply]
  rw [List.Nodup.count (sort_nodup _ _)]
  exact if_congr (mem_sort _) rfl rfl

theorem check_eq_zero (h : AddrManOk noPending s) : s.check = 0 := by
  obtain ⟨setTried, mapNew, hrun, htried, hnew⟩ := foldlM_checkInfo h (s.mapInfo.keys.sort (· ≤ ·))
    (fun m hm => Finmap.mem_keys.mp ((Finset.mem_sort _).mp hm)) (∅, ∅)
  have hsetTried : setTried = triedSet s := by
    ext m
    rw [triedSet, htried, Finset.mem_sort]
    simp
  have hmapNew (m : ℕ) : mapNew.lookup m =
      if triedOf s m = false ∧ m ∈ s.mapInfo then some (refOf s m) else none := by
    rw [hnew]
    exact if_congr (by rw [Finset.mem_sort, Finmap.mem_keys, and_comm]) rfl (Finmap.lookup_empty m)
  have hkeys : mapNew.keys = newSet s := by
    ext m
    rw [newSet, Finset.mem_filter, Finmap.mem_keys, ← Finmap.lookup_isSome, hmapNew]
    split
    · next hin => exact iff_of_true rfl hin.symm
    · next hout => exact iff_of_false Bool.false_ne_true fun hin => hout hin.symm
  have hcountTried : ∀ m, s.triedIds.count m = if m ∈ triedSet s then 1 else 0 := by
    intro m
    rw [count_triedIds, h.tried m]
    exact if_congr mem_triedSet.symm rfl rfl
  have hcountNew : ∀ m, mapNew.lookup m =
      if s.newIds.count m = 0 then none else some (s.newIds.count m : ℤ) := by
    intro m
    have href := h.refs m
    unfold noPending at href
    rw [count_newIds, hmapNew]
    split
    · next hin =>
      obtain ⟨huntried, hmem⟩ := hin
      obtain ⟨info, hlookup⟩ := Finmap.mem_iff.mp hmem
      have hpositive := ((h.entries m info hlookup).untried
        ((triedOf_of_lookup hlookup).symm.trans huntried)).1
      rw [← refOf_of_lookup hlookup] at hpositive
      rw [if_neg (by omega)]
      exact congrArg some (by omega)
    · next hout =>
      rw [if_pos]
      by_contra hne
      have hpositive : 0 < newCount s.vvNew m := Nat.pos_of_ne_zero hne
      obtain ⟨b, hb⟩ := Finset.card_pos.mp hpositive
      have hmem := (Finset.mem_filter.mp hb).2
      obtain ⟨info, hlookup⟩ := mem_mapInfo_of_ref h hmem
      refine hout ⟨?_, Finmap.mem_of_lookup_eq_some hlookup⟩
      exact Bool.eq_false_iff.mpr fun htrue => h.not_mem_new htrue b hmem
  have hranTried := foldlM_checkTried s.triedIds (triedSet s) hcountTried
  have hranNew := foldlM_checkNew s.newIds mapNew hcountNew
  rw [hsetTried] at hrun
  rw [check, if_neg (not_not.mpr (length_vRandom h)), hrun]
  dsimp only [bind, Except.bind]
  rw [if_neg (not_not.mpr h.nTried.symm), hkeys, if_neg (not_not.mpr h.nNew.symm), hranTried]
  rw [hranNew]
  rfl

end Check

/-! ## Runs -/

/-- The calls of a run, with the outcome of their random choices. The last four are the steps
that the others are made of. -/
inductive AddrOp where
  | add (nNow : ℤ) (r : AddrRandom) (addr : CAddress) (source : CNetAddr) (nTimePenalty : ℤ)
  | good (nNow : ℤ) (r : AddrRandom) (addr : CService) (nTime : ℤ)
  | attempt (addr : CService) (nTime : ℤ)
  | connected (addr : CService) (nTime : ℤ)
  | getAddr (r : ℕ → ℕ)
  | select (fTried : Bool) (rounds : List SelectRound)
  | swapRandom (nRndPos1 nRndPos2 : ℕ)
  | selectTried (r : ℕ → ℕ) (nKBucket : TriedBucket)
  | shrinkNew (nNow : ℤ) (r : ℕ → ℕ) (nUBucket : NewBucket)
  | makeTried (r : ℕ → ℕ) (nId : ℕ) (nOrigin : NewBucket)

/-- What the callers of an operation see to: the times are those of the clock, which is past the
epoch, and the four steps are for positions in range, for a bucket that is not empty and for an
address that has just been reached. -/
def AddrOp.Allowed (s : CAddrMan) : AddrOp → Prop
  | good _ _ _ nTime => 0 < nTime
  | attempt _ nTime => 0 ≤ nTime
  | swapRandom nRndPos1 nRndPos2 => nRndPos1 < s.vRandom.length ∧ nRndPos2 < s.vRandom.length
  | shrinkNew _ _ nUBucket => (s.vvNew nUBucket).Nonempty
  | makeTried _ nId nOrigin => nId ∈ s.vvNew nOrigin ∧
      ∀ info, s.mapInfo.lookup nId = some info → info.nLastSuccess ≠ 0
  | _ => True

/-- The tables after an operation; no result if an assertion fails. -/
def AddrOp.run (env : AddrEnv) (s : CAddrMan) : AddrOp → Option CAddrMan
  | add nNow r addr source nTimePenalty =>
    (s.add env nNow r addr source nTimePenalty).map Prod.snd
  | good nNow r addr nTime => s.good env nNow r addr nTime
  | attempt addr nTime => some (s.attempt addr nTime)
  | connected addr nTime => some (s.connected addr nTime)
  | getAddr r => (s.getAddr r).map Prod.snd
  | select fTried rounds => (s.selectRounds fTried rounds).map fun _ => s
  | swapRandom nRndPos1 nRndPos2 => s.swapRandom nRndPos1 nRndPos2
  | selectTried r nKBucket => (s.selectTried r nKBucket).map Prod.snd
  | shrinkNew nNow r nUBucket => s.shrinkNew nNow r nUBucket
  | makeTried r nId nOrigin => s.makeTried env r nId nOrigin

/-- The tables after a run that starts with the constructor. -/
inductive AddrReached (env : AddrEnv) : CAddrMan → Prop
  | new : AddrReached env CAddrMan.new
  | step {s s' : CAddrMan} (op : AddrOp) (hs : AddrReached env s) (hallowed : op.Allowed s)
      (hrun : op.run env s = some s') : AddrReached env s'

theorem AddrManOk.new : AddrManOk noPending CAddrMan.new where
  ids _ hmem := absurd hmem Finmap.notMem_empty
  positions _ _ := iff_of_false nofun fun h => by
    obtain ⟨i, -, hi⟩ := h
    cases hi
  names _ _ := iff_of_false nofun nofun
  refs n := by
    rfl
  tried n := by
    unfold triedCount CAddrMan.new
    simp only [count_nil, sum_const_zero]
    rfl
  entries _ _ hlookup := by cases hlookup
  nTried := rfl
  nNew := rfl

theorem selectTried_of_empty {s : CAddrMan} (r : ℕ → ℕ) {k : TriedBucket}
    (hempty : s.vvTried k = []) : s.selectTried r k = some (none, s) := by
  have hfrom : selectTriedFrom s.mapInfo r ADDRMAN_TRIED_ENTRIES_INSPECT_ON_EVICT 0 [] none =
      some ([], none) := rfl
  have hsame : Function.update s.vvTried k [] = s.vvTried := by
    rw [← hempty]
    exact Function.update_eq_self k s.vvTried
  rw [selectTried, hempty, hfrom]
  dsimp only [bind_eq_bind, bind_some]
  rw [hsame]
  rfl

theorem AddrOp.run_spec (env : AddrEnv) {s : CAddrMan} (op : AddrOp) (h : AddrManOk noPending s)
    (hallowed : op.Allowed s) : ∃ s', op.run env s = some s' ∧ AddrManOk noPending s' := by
  cases op with
  | add nNow r addr source nTimePenalty =>
    obtain ⟨fNew, s', hrun, hok⟩ := add_spec env nNow r addr source nTimePenalty h
    exact ⟨s', congrArg (Option.map Prod.snd) hrun, hok⟩
  | good nNow r addr nTime => exact good_spec env nNow r addr hallowed h
  | attempt addr nTime => exact ⟨_, rfl, attempt_spec addr hallowed h⟩
  | connected addr nTime => exact ⟨_, rfl, connected_spec addr nTime h⟩
  | getAddr r =>
    obtain ⟨vAddr, s', hrun, hok⟩ := getAddr_spec r h
    exact ⟨s', congrArg (Option.map Prod.snd) hrun, hok⟩
  | select fTried rounds =>
    obtain ⟨result, hrun⟩ := selectRounds_spec fTried rounds h
    exact ⟨s, congrArg (Option.map fun _ => s) hrun, h⟩
  | swapRandom nRndPos1 nRndPos2 =>
    obtain ⟨s', hrun, hswapped⟩ := swapRandom_spec h.positions hallowed.1 hallowed.2
    exact ⟨s', hrun, h.swap hswapped⟩
  | selectTried r nKBucket =>
    by_cases hempty : s.vvTried nKBucket = []
    · refine ⟨_, congrArg (Option.map Prod.snd) (selectTried_of_empty r hempty), h⟩
    · obtain ⟨vTried, nPos, hrun, hperm, -⟩ := selectTried_spec r nKBucket
        (fun m hm => by
          obtain ⟨info, hlookup, -⟩ := mem_mapInfo_of_tried h hm
          exact ⟨info, hlookup⟩)
        (length_pos_iff.mpr hempty)
      exact ⟨_, congrArg (Option.map Prod.snd) hrun, h.shuffle hperm⟩
  | shrinkNew nNow r nUBucket =>
    obtain ⟨s', dropped, hrun, hok, -⟩ := shrinkNew_spec nNow r h hallowed fun _ _ => rfl
    exact ⟨s', hrun, hok⟩
  | makeTried r nId nOrigin => exact makeTried_spec env r h hallowed.1 hallowed.2

theorem AddrReached.ok {env : AddrEnv} {s : CAddrMan} (h : AddrReached env s) :
    AddrManOk noPending s := by
  induction h with
  | new => exact AddrManOk.new
  | step op _ hallowed hrun ih =>
    obtain ⟨s', hrun', hok⟩ := op.run_spec env ih hallowed
    rw [hrun] at hrun'
    exact Option.some.inj hrun' ▸ hok

/-- After every run `Check_` returns zero, and no assertion fails in the next operation. -/
theorem addrman_consistent (env : AddrEnv) {s : CAddrMan} (h : AddrReached env s) :
    s.check = 0 ∧ ∀ op : AddrOp, op.Allowed s → ∃ s', op.run env s = some s' := by
  refine ⟨check_eq_zero h.ok, fun op hallowed => ?_⟩
  obtain ⟨s', hrun, -⟩ := op.run_spec env h.ok hallowed
  exact ⟨s', hrun⟩

section Sample

def sampleAddrEnv : AddrEnv where
  isRoutable addr := addr ≠ []
  triedHash addr := addr.port
  newHash addr source := addr.length + source.length

def sampleAddress : CAddress where
  ip := [10, 0, 0, 1]
  port := 9555
  nServices := 1
  nTime := 1700000000

def sampleAddrRandom : AddrRandom where
  shrink k := k
  select k := k
  self := 7

def sampleAdd : AddrOp := .add 1700000100 sampleAddrRandom sampleAddress [10, 0, 0, 2] 0

def sampleGood : AddrOp := .good 1700000200 sampleAddrRandom sampleAddress.toCService 1700000200

theorem sampleAdd_runs : (sampleAdd.run sampleAddrEnv CAddrMan.new).isSome := by decide

theorem sampleGood_runs :
    (sampleGood.run sampleAddrEnv (Option.get _ sampleAdd_runs)).isSome := by decide

/-- An address is added and then reached: it is tried, and the check passes. -/
theorem addrman_consistent_sampleGood : ∃ s s', sampleAdd.run sampleAddrEnv CAddrMan.new = some s ∧
    sampleGood.run sampleAddrEnv s = some s' ∧ s'.nTried = 1 ∧ s'.check = 0 ∧
    ∃ s'', sampleAdd.run sampleAddrEnv s' = some s'' := by
  have hadd := (some_get sampleAdd_runs).symm
  have hgood := (some_get sampleGood_runs).symm
  have hadded := AddrReached.step sampleAdd (@AddrReached.new sampleAddrEnv) trivial hadd
  have hreached := AddrReached.step sampleGood hadded (by decide : (0 : ℤ) < 1700000200) hgood
  have hconsistent := addrman_consistent sampleAddrEnv hreached
  exact ⟨_, _, hadd, hgood, by decide, hconsistent.1, hconsistent.2 sampleAdd trivial⟩

end Sample

end Phoenixcoin.Analysis
