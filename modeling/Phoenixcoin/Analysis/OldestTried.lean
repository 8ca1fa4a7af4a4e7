import Phoenixcoin.Analysis.AddressRuns
import Phoenixcoin.Lib.PartialShuffle

/-!
# The position that SelectTried returns

`SelectTried` moves the entry that it inspects to the position of the round, but remembers the
position from which it came. What stands there in the end is the oldest inspected entry only if
the draw has not moved it, or if a later round has put an entry there that is as old.
-/

set_option autoImplicit false

namespace Phoenixcoin.Analysis

open Lib Program CAddrMan Option

/-! ## Rounds -/

/-- The position that round `i` draws in a bucket with this many entries. -/
def drawnPos (r : ℕ → ℕ) (length i : ℕ) : ℕ := getRandInt (r i) (length - i) + i

theorem drawnPos_ahead (r : ℕ → ℕ) (length : ℕ) : DrawsAhead (drawnPos r length) length := by
  intro i hi
  have hlt : getRandInt (r i) (length - i) < length - i := getRandInt_lt (Nat.sub_pos_of_lt hi)
  unfold drawnPos
  omega

/-- The entry that round `i` inspects. -/
def inspected (r : ℕ → ℕ) (vTried : List ℕ) (i : ℕ) : ℕ :=
  (drawn (drawnPos r vTried.length) vTried i).getD 0

def inspections (vTried : List ℕ) : ℕ := min ADDRMAN_TRIED_ENTRIES_INSPECT_ON_EVICT vTried.length

def lastSuccess (mapInfo : Table ℕ CAddrInfo) (nId : ℕ) : ℤ :=
  ((mapInfo.lookup nId).map CAddrInfo.nLastSuccess).getD 0

/-- Round `j` is the first among `k` rounds that inspects an entry than which none is older. -/
structure FirstOldest (age : ℕ → ℤ) (k j : ℕ) : Prop where
  lt : j < k
  before : ∀ i < j, age j < age i
  least : ∀ i < k, age j ≤ age i

theorem FirstOldest.step {age : ℕ → ℤ} {k j : ℕ} (h : FirstOldest age k j) :
    FirstOldest age (k + 1) (if age k < age j then k else j) := by
  split
  · next hless =>
    refine ⟨Nat.lt_succ_self k, fun i hi => hless.trans_le (h.least i hi), fun i hi => ?_⟩
    rcases Nat.lt_succ_iff_lt_or_eq.mp hi with hi | rfl
    · exact hless.le.trans (h.least i hi)
    · exact le_rfl
  · next hge =>
    refine ⟨Nat.lt_succ_of_lt h.lt, h.before, fun i hi => ?_⟩
    rcases Nat.lt_succ_iff_lt_or_eq.mp hi with hi | rfl
    · exact h.least i hi
    · exact not_lt.mp hge

theorem FirstOldest.unique {age : ℕ → ℤ} {k j j' : ℕ} (h : FirstOldest age k j)
    (h' : FirstOldest age k j') : j = j' := by
  rcases Nat.lt_trichotomy j j' with hlt | heq | hgt
  · exact absurd (h'.before j hlt) (not_lt.mpr (h.least j' h'.lt))
  · exact heq
  · exact absurd (h.before j' hgt) (not_lt.mpr (h'.least j h.lt))

section Loop

variable {mapInfo : Table ℕ CAddrInfo} {r : ℕ → ℕ} {vTried : List ℕ}

/-- What the loop remembers after `k` rounds. -/
def Remembered (mapInfo : Table ℕ CAddrInfo) (r : ℕ → ℕ) (vTried : List ℕ) (k : ℕ)
    (nOldest : Option (ℕ × ℕ)) : Prop :=
  k = 0 ∧ nOldest = none ∨
    ∃ j, FirstOldest (fun i => lastSuccess mapInfo (inspected r vTried i)) k j ∧
      nOldest = some (inspected r vTried j, drawnPos r vTried.length j)

theorem FirstOldest.first (age : ℕ → ℤ) : FirstOldest age 1 0 := by
  refine ⟨Nat.zero_lt_one, fun i hi => absurd hi (Nat.not_lt_zero i), fun i hi => ?_⟩
  rw [Nat.lt_one_iff.mp hi]

theorem lastSuccess_of_lookup {nId : ℕ} {info : CAddrInfo}
    (h : mapInfo.lookup nId = some info) : lastSuccess mapInfo nId = info.nLastSuccess := by
  rw [lastSuccess, h]
  rfl

theorem drawn_eq_inspected {i : ℕ} (hi : i < vTried.length) :
    drawn (drawnPos r vTried.length) vTried i = some (inspected r vTried i) := by
  obtain ⟨nTemp, -, htemp⟩ := drawn_eq_some (drawnPos_ahead r vTried.length) hi
  rw [inspected, htemp]
  rfl

section

variable (hknown : ∀ n ∈ vTried, ∃ info, mapInfo.lookup n = some info)
include hknown

theorem inspected_known {i : ℕ}
    (hi : i < vTried.length) : ∃ info, mapInfo.lookup (inspected r vTried i) = some info := by
  obtain ⟨nTemp, hmem, htemp⟩ := drawn_eq_some (drawnPos_ahead r vTried.length) hi
  rw [drawn_eq_inspected hi] at htemp
  exact Option.some.inj htemp ▸ hknown nTemp hmem

theorem selectTriedFrom_remembers (rounds : ℕ) :
    ∀ (i : ℕ) (nOldest : Option (ℕ × ℕ)), i ≤ vTried.length →
      Remembered mapInfo r vTried i nOldest →
      ∃ nOldest', selectTriedFrom mapInfo r rounds i
          (shuffled (drawnPos r vTried.length) vTried i) nOldest =
          some (shuffled (drawnPos r vTried.length) vTried (min (i + rounds) vTried.length),
            nOldest') ∧
        Remembered mapInfo r vTried (min (i + rounds) vTried.length) nOldest' := by
  have hd := drawnPos_ahead r vTried.length
  induction rounds with
  | zero =>
    intro i nOldest hi h
    rw [Nat.add_zero, min_eq_left hi]
    exact ⟨nOldest, rfl, h⟩
  | succ rounds ih =>
    intro i nOldest hi h
    have hlength := (shuffled_perm hd hi).length_eq
    unfold selectTriedFrom
    by_cases hmore : i < vTried.length
    · obtain ⟨infoTemp, hlookupTemp⟩ := inspected_known (r := r) hknown hmore
      have htemp := drawn_eq_inspected (r := r) hmore
      have hstands : i < (shuffled (drawnPos r vTried.length) vTried i).length := by omega
      have hfirst := List.getElem?_eq_getElem hstands
      have hnext := ih (i + 1)
      rw [show i + 1 + rounds = i + (rounds + 1) by omega, shuffled_succ htemp hfirst] at hnext
      have hpos : getRandInt (r i) ((shuffled (drawnPos r vTried.length) vTried i).length - i) + i =
          drawnPos r vTried.length i := by
        rw [hlength]
        rfl
      unfold drawn at htemp
      rw [if_pos hstands]
      dsimp only
      rw [hpos, htemp, hfirst]
      dsimp only [bind_eq_bind, bind_some]
      rcases h with ⟨rfl, rfl⟩ | ⟨j, hj, rfl⟩
      · exact hnext _ hmore (Or.inr ⟨0, FirstOldest.first _, rfl⟩)
      · obtain ⟨infoOld, hlookupOld⟩ :=
          inspected_known (r := r) hknown (Nat.lt_trans hj.lt hmore)
        dsimp only
        rw [hlookupTemp, hlookupOld, bind_some]
        refine hnext _ hmore (Or.inr ⟨_, hj.step, ?_⟩)
        rw [lastSuccess_of_lookup hlookupTemp, lastSuccess_of_lookup hlookupOld]
        split <;> rfl
    · rw [if_neg (by omega)]
      rw [min_eq_right (by omega), ← show i = vTried.length by omega]
      exact ⟨nOldest, rfl, h⟩

end

end Loop

/-! ## The returned position -/

/-- `SelectTried` fails no assertion, and the position that it returns, if the bucket is not empty,
holds in the bucket as it leaves it one of the entries that it inspects, than which no other of
them is older. -/
def ReturnsOldest (r : ℕ → ℕ) (b : TriedBucket) (s : CAddrMan) : Prop :=
  ∃ nPos s', s.selectTried r b = some (nPos, s') ∧
    (nPos = none ↔ s.vvTried b = []) ∧
    ∀ p ∈ nPos, ∃ i < inspections (s.vvTried b),
      (s'.vvTried b)[p]? = some (inspected r (s.vvTried b) i) ∧
      ∀ k < inspections (s.vvTried b),
        lastSuccess s.mapInfo (inspected r (s.vvTried b) i) ≤
          lastSuccess s.mapInfo (inspected r (s.vvTried b) k)

/-- The first draw of an oldest entry is of the entry at the round's own position, so that nothing
moves, or it is from the position of a later round that draws an entry which is as old. -/
def DrawsStay (r : ℕ → ℕ) (vTried : List ℕ) (age : ℕ → ℤ) : Prop :=
  ∀ j, FirstOldest (fun i => age (inspected r vTried i)) (inspections vTried) j →
    drawnPos r vTried.length j = j ∨
      drawnPos r vTried.length j < inspections vTried ∧
        age (inspected r vTried (drawnPos r vTried.length j)) = age (inspected r vTried j)

theorem holdsOldest_iff {r : ℕ → ℕ} {vTried : List ℕ} (hnodup : vTried.Nodup) (age : ℕ → ℤ) {j : ℕ}
    (hj : FirstOldest (fun i => age (inspected r vTried i)) (inspections vTried) j) :
    (∃ i < inspections vTried,
      (shuffled (drawnPos r vTried.length) vTried (inspections vTried))[
        drawnPos r vTried.length j]? = some (inspected r vTried i) ∧
      ∀ k < inspections vTried, age (inspected r vTried i) ≤ age (inspected r vTried k)) ↔
    (drawnPos r vTried.length j = j ∨ drawnPos r vTried.length j < inspections vTried ∧
        age (inspected r vTried (drawnPos r vTried.length j)) = age (inspected r vTried j)) := by
  have hd := drawnPos_ahead r vTried.length
  have hrounds : inspections vTried ≤ vTried.length := min_le_right _ _
  have hheld {p : ℕ} (hp : p < inspections vTried) :
      (shuffled (drawnPos r vTried.length) vTried (inspections vTried))[p]? =
        some (inspected r vTried p) := by
    rw [getElem?_shuffled_of_lt hd hp hrounds]
    exact drawn_eq_inspected (hp.trans_le hrounds)
  have hlt := (hd j (hj.lt.trans_le hrounds)).2
  constructor
  · rintro ⟨i, hi, hholds, hleast⟩
    by_cases hp : drawnPos r vTried.length j < inspections vTried
    · refine Or.inr ⟨hp, ?_⟩
      rw [hheld hp] at hholds
      rw [Option.some.inj hholds]
      exact le_antisymm (hleast j hj.lt) (hj.least i hi)
    · have hother := drawn_ne_of_le hd hnodup hi hrounds (not_lt.mp hp) hlt
      rw [hholds, drawn_eq_inspected (hi.trans_le hrounds)] at hother
      exact absurd rfl hother
  · rintro (hsame | ⟨hp, hage⟩)
    · rw [hsame]
      exact ⟨j, hj.lt, hheld hj.lt, hj.least⟩
    · refine ⟨_, hp, hheld hp, fun k hk => ?_⟩
      rw [hage]
      exact hj.least k hk

/-- The condition on the draws, for a bucket without repetitions whose entries are all known. -/
theorem selectTried_oldest {s : CAddrMan} {b : TriedBucket} (hnodup : (s.vvTried b).Nodup)
    (hknown : ∀ n ∈ s.vvTried b, ∃ info, s.mapInfo.lookup n = some info) (r : ℕ → ℕ) :
    ReturnsOldest r b s ↔ DrawsStay r (s.vvTried b) (lastSuccess s.mapInfo) := by
  obtain ⟨nOldest, hrun, hremembered⟩ := selectTriedFrom_remembers (r := r) hknown
    ADDRMAN_TRIED_ENTRIES_INSPECT_ON_EVICT 0 none (Nat.zero_le _) (Or.inl ⟨rfl, rfl⟩)
  change selectTriedFrom s.mapInfo r ADDRMAN_TRIED_ENTRIES_INSPECT_ON_EVICT 0 (s.vvTried b) none =
    some (shuffled (drawnPos r (s.vvTried b).length) (s.vvTried b) (inspections (s.vvTried b)),
      nOldest) at hrun
  change Remembered s.mapInfo r (s.vvTried b) (inspections (s.vvTried b)) nOldest at hremembered
  have hselect : s.selectTried r b = some (nOldest.map Prod.snd, { s with
      vvTried := Function.update s.vvTried b (shuffled (drawnPos r (s.vvTried b).length)
        (s.vvTried b) (inspections (s.vvTried b))) }) := by
    rw [selectTried, hrun]
    rfl
  unfold ReturnsOldest DrawsStay
  rcases hremembered with ⟨hzero, rfl⟩ | ⟨j, hj, rfl⟩
  · have hnil : s.vvTried b = [] := by
      rw [← List.length_eq_zero_iff]
      unfold inspections ADDRMAN_TRIED_ENTRIES_INSPECT_ON_EVICT at hzero
      omega
    constructor
    · intro _ j hj
      exact absurd hj.lt (by omega)
    · intro _
      exact ⟨none, _, hselect, ⟨fun _ => hnil, fun _ => rfl⟩, fun p hp => by cases hp⟩
  · have hne : s.vvTried b ≠ [] := by
      intro hnil
      have hlt := hj.lt
      rw [hnil] at hlt
      exact absurd hlt (Nat.not_lt_zero j)
    rw [show (∀ j', _ → _) ↔ _ from ⟨fun h => h j hj, fun h j' hj' => hj.unique hj' ▸ h⟩,
      ← holdsOldest_iff hnodup (lastSuccess s.mapInfo) hj]
    constructor
    · rintro ⟨nPos, s', hsame, -, hholds⟩
      cases hselect.symm.trans hsame
      have hpos := hholds _ rfl
      dsimp only at hpos
      rw [Function.update_self] at hpos
      exact hpos
    · intro hholds
      refine ⟨_, _, hselect, ⟨fun h => (by cases h), fun hnil => absurd hnil hne⟩, ?_⟩
      intro p hp
      cases hp
      dsimp only
      rw [Function.update_self]
      exact hholds

/-- In a bucket without repetitions whose entries are all known, the returned position holds the
oldest inspected entry exactly if the draws let it stay there. -/
theorem returnsOldest_iff {s : CAddrMan} {b : TriedBucket} (hnodup : (s.vvTried b).Nodup)
    (hknown : ∀ n ∈ s.vvTried b, ∃ info, s.mapInfo.lookup n = some info) (r : ℕ → ℕ) :
    ReturnsOldest r b s ↔ DrawsStay r (s.vvTried b) (lastSuccess s.mapInfo) :=
  selectTried_oldest hnodup hknown r

theorem AddrManOk.nodup_tried {pending : ℕ → ℕ} {s : CAddrMan} (h : AddrManOk pending s)
    (b : TriedBucket) : (s.vvTried b).Nodup := by
  refine List.nodup_iff_count_le_one.mpr fun n => ?_
  have hle : (s.vvTried b).count n ≤ triedCount s.vvTried n :=
    Finset.single_le_sum (f := fun b => (s.vvTried b).count n) (fun _ _ => Nat.zero_le _)
      (Finset.mem_univ b)
  rw [h.tried n] at hle
  split at hle <;> omega

/-- After every run of the address manager both hypotheses hold of each tried bucket. -/
theorem AddrReached.oldest_iff {env : AddrEnv} {s : CAddrMan} (h : AddrReached env s)
    (b : TriedBucket) (r : ℕ → ℕ) :
    ReturnsOldest r b s ↔ DrawsStay r (s.vvTried b) (lastSuccess s.mapInfo) := by
  refine selectTried_oldest (h.ok.nodup_tried b) (fun n hn => ?_) r
  obtain ⟨info, hlookup, -⟩ := mem_mapInfo_of_tried h.ok hn
  exact ⟨info, hlookup⟩

/-- A full bucket whose entry 5 is the oldest. -/
def fullBucket : CAddrMan where
  nIdCount := 64
  mapInfo := (List.range 64).foldl (fun mapInfo n => mapInfo.insert n
    { CAddrInfo.ofAddress ⟨⟨[UInt8.ofNat n], 9555⟩, 1, 0⟩ [] with
      nLastSuccess := if n = 5 then 1 else 2
      fInTried := true
      nRandomPos := n }) ∅
  mapAddr := (List.range 64).foldl (fun mapAddr n => mapAddr.insert [UInt8.ofNat n] n) ∅
  vRandom := List.range 64
  nTried := 64
  vvTried := Function.update (fun _ => []) 0 (List.range 64)
  nNew := 0
  vvNew := fun _ => ∅

/-- The first draw of 5 takes entry 5 away from its position. -/
theorem returns_other : ¬ ReturnsOldest (fun _ => 5) 0 fullBucket := by
  rintro ⟨nPos, s', hselect, -, hholds⟩
  have hpos : ((fullBucket.selectTried (fun _ => 5) 0).map Prod.fst) = some (some 5) := by
    decide +kernel
  have hentry : (fullBucket.selectTried (fun _ => 5) 0).map (fun p => (p.2.vvTried 0)[5]?) =
      some (some 0) := by
    decide +kernel
  have hinspected : ∀ i < inspections (fullBucket.vvTried 0),
      inspected (fun _ => 5) (fullBucket.vvTried 0) i ≠ 0 := by
    decide
  rw [hselect, map_some, Option.some.injEq] at hpos hentry
  obtain ⟨i, hi, hheld, -⟩ := hholds 5 hpos
  exact hinspected i hi (Option.some.inj (hheld.symm.trans hentry))

/-- Draws that move nothing. -/
theorem returns_oldest : ReturnsOldest (fun _ => 0) 0 fullBucket := by
  have hnodup : (fullBucket.vvTried 0).Nodup := by decide
  have hknown : ∀ n ∈ fullBucket.vvTried 0, (fullBucket.mapInfo.lookup n).isSome := by
    decide +kernel
  refine (returnsOldest_iff hnodup (fun n hn => isSome_iff_exists.mp (hknown n hn)) _).mpr ?_
  intro j _
  simp [drawnPos, getRandInt]

end Phoenixcoin.Analysis
