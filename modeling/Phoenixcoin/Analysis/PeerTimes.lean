import Phoenixcoin.Program.TimeData

/-!
# What peers do to the adjusted time

Peers report their times, and the median of the differences to ours becomes the offset of the
adjusted time if it is below an hour. The absolute value of the least `int64` is the one that does
not exist, and a sample of that size is all that can go wrong with the median; beside it the
difference may leave the range when it is formed, and so may the sum of a late time and the offset.
-/

set_option autoImplicit false

namespace Phoenixcoin.Analysis

open Lib Program List Option TimeData CMedianFilter

/-! ## Runs -/

/-- A reading of the system clock. -/
structure LocalTime where
  seconds : ℤ
  nonneg : 0 ≤ seconds
  fits : seconds < 2 ^ 63

/-- A call of `AddTimeData` with what a peer sent, or of `GetAdjustedTime`. -/
inductive ClockCall where
  | addTimeData (ip : CNetAddr) (nTime : ℤ) (hfits : -2 ^ 63 ≤ nTime ∧ nTime < 2 ^ 63)
      (now : LocalTime)
  | getAdjustedTime (now : LocalTime)

namespace ClockCall

def run (s : TimeData) : ClockCall → Option TimeData
  | addTimeData ip nTime _ now => s.AddTimeData ip nTime now.seconds
  | getAdjustedTime now => (s.GetAdjustedTime now.seconds).map fun _ => s

/-- No step overflows, and the adjusted time is less than an hour from the clock. -/
def Holds (s : TimeData) : ClockCall → Prop
  | addTimeData ip nTime _ now => (s.AddTimeData ip nTime now.seconds).isSome
  | getAdjustedTime now =>
    ∃ nTime, s.GetAdjustedTime now.seconds = some nTime ∧ |nTime - now.seconds| < 60 * 60

/-- The difference can be formed and, where the median of the samples is taken, none of them is the
least `int64`. The clock is read so early that the offset can be added. -/
def Fits (s : TimeData) : ClockCall → Prop
  | addTimeData ip nTime _ now =>
    -2 ^ 63 ≤ nTime - now.seconds ∧
      (ip ∉ s.setKnown →
        let samples := s.vTimeOffsets.input (nTime - now.seconds)
        5 ≤ samples.size → samples.size % 2 = 1 → INT64_MIN ∉ samples.vValues)
  | getAdjustedTime now => s.nPeersOffset = INT64_MAX ∨ now.seconds + s.nPeersOffset < 2 ^ 63

end ClockCall

open ClockCall

/-! ## The invariant -/

/-- The NTP offset is unusable, the offset of the peers is below an hour if there is one, and every
sample is an `int64`. -/
structure ClockOk (s : TimeData) : Prop where
  noNtp : s.nNtpOffset = INT64_MAX
  offset : s.nPeersOffset = INT64_MAX ∨ |s.nPeersOffset| < 60 * 60
  samples : ∀ n ∈ s.vTimeOffsets.vValues, -2 ^ 63 ≤ n ∧ n < 2 ^ 63

theorem clockOk_start : ClockOk start := by
  refine ⟨rfl, Or.inl rfl, ?_⟩
  simp [start, new]

variable {filter : CMedianFilter} {s : TimeData}

theorem mem_vValues_input {n value : ℤ} (h : n ∈ (filter.input value).vValues) :
    n ∈ filter.vValues ∨ n = value := by
  simp only [input, mem_append, mem_singleton] at h
  rcases h with h | h
  · split at h
    · exact Or.inl (mem_of_mem_tail h)
    · exact Or.inl h
  · exact Or.inr h

theorem mem_vSorted_input {n value : ℤ} :
    n ∈ (filter.input value).vSorted ↔ n ∈ (filter.input value).vValues := by
  simp [input]

theorem length_vSorted_input (value : ℤ) (filter : CMedianFilter) :
    (filter.input value).vSorted.length = (filter.input value).size := by
  simp [input, size]

theorem median_of_odd (hodd : filter.vSorted.length % 2 = 1) :
    ∃ nMedian ∈ filter.vSorted, filter.median = some nMedian := by
  have hlt : filter.vSorted.length / 2 < filter.vSorted.length := by omega
  refine ⟨filter.vSorted[filter.vSorted.length / 2], getElem_mem hlt, ?_⟩
  simp only [median, hodd, if_true]
  exact getElem?_eq_getElem hlt

theorem isSome_matchOffsets {samples : List ℤ} (hfits : ∀ n ∈ samples, -2 ^ 63 ≤ n) :
    (samples.foldlM matchOffset false).isSome ↔ INT64_MIN ∉ samples := by
  have hround : ∀ n ∈ samples, ∀ fMatch, (matchOffset fMatch n).isSome ↔
      n ≠ INT64_MIN := by
    intro n hn fMatch
    unfold matchOffset
    split
    · next hzero => simp [hzero, INT64_MIN]
    · rw [isSome_map, isSome_abs64 (hfits n hn)]
  rw [foldlM_isSome_iff (P := fun _ l => ∀ n ∈ l, n ∈ samples) (p := fun n => n ≠ INT64_MIN)
    (fun n l fMatch _ hl _ m hm => hl m (mem_cons_of_mem n hm))
    (fun n l fMatch hl => hround n (hl n mem_cons_self) fMatch) (fun n hn => hn)]
  constructor
  · intro h hmem
    exact h _ hmem rfl
  · rintro h n hn rfl
    exact h hn

/-! ## One call -/

/-- An odd number of samples overflows nothing exactly if the least `int64_t` is not among them. -/
theorem adoptMedian_isSome_iff (hfits : ∀ n ∈ s.vTimeOffsets.vSorted, -2 ^ 63 ≤ n)
    (hodd : s.vTimeOffsets.vSorted.length % 2 = 1) :
    s.adoptMedian.isSome ↔ INT64_MIN ∉ s.vTimeOffsets.vSorted := by
  obtain ⟨nMedian, hmem, hmedian⟩ := median_of_odd hodd
  rw [← isSome_matchOffsets hfits]
  constructor
  · intro h
    obtain ⟨s', hs'⟩ := isSome_iff_exists.mp h
    simp only [adoptMedian, hmedian, bind_eq_bind, bind_some, bind_eq_some_iff] at hs'
    obtain ⟨nAbs, -, fMatch, hmatch, -⟩ := hs'
    simp [hmatch]
  · intro h
    obtain ⟨fMatch, hmatch⟩ := isSome_iff_exists.mp h
    have hne : nMedian ≠ INT64_MIN := by
      rintro rfl
      exact (isSome_matchOffsets hfits).mp h hmem
    simp only [adoptMedian, hmedian, bind_eq_bind, bind_some,
      abs64_of_ne (hfits nMedian hmem) hne, hmatch]
    split
    · rfl
    · split <;> rfl

theorem adoptMedian_clockOk {s' : TimeData} (hs : ClockOk s) (h : s.adoptMedian = some s') :
    ClockOk s' := by
  simp only [adoptMedian, bind_eq_bind, bind_eq_some_iff] at h
  obtain ⟨nMedian, -, nAbs, hnAbs, fMatch, -, hlast⟩ := h
  have hoffset : (if nAbs < 60 * 60 then nMedian else INT64_MAX) = INT64_MAX ∨
      |if nAbs < 60 * 60 then nMedian else INT64_MAX| < 60 * 60 := by
    split
    · next hnear => exact Or.inr (abs64_eq_some hnAbs ▸ hnear)
    · exact Or.inl rfl
  split at hlast
  · cases hlast
    exact ⟨hs.noNtp, hoffset, hs.samples⟩
  · split at hlast <;> cases hlast <;> exact ⟨hs.noNtp, hoffset, hs.samples⟩

theorem addTimeData_spec (hs : ClockOk s) {ip : CNetAddr} {nTime : ℤ}
    (hfits : -2 ^ 63 ≤ nTime ∧ nTime < 2 ^ 63) (now : LocalTime) :
    ((s.AddTimeData ip nTime now.seconds).isSome ↔ (addTimeData ip nTime hfits now).Fits s)
      ∧ ∀ s', s.AddTimeData ip nTime now.seconds = some s' → ClockOk s' := by
  have hhigh : nTime - now.seconds < 2 ^ 63 := by linarith [now.nonneg, hfits.2]
  by_cases hlow : -2 ^ 63 ≤ nTime - now.seconds
  swap
  · have hnone : int64 (nTime - now.seconds) = none := if_neg (fun h => hlow h.1)
    have hadd : s.AddTimeData ip nTime now.seconds = none := by
      simp [AddTimeData, hnone]
    rw [hadd]
    exact ⟨iff_of_false (by simp) fun h => hlow h.1, by simp⟩
  simp only [AddTimeData, int64_of_fits hlow hhigh, bind_eq_bind, bind_some,
    Fits, hlow, true_and]
  by_cases hknown : ip ∈ s.setKnown
  · simp [hknown, hs]
  simp only [hknown, if_false, not_false_eq_true, true_implies]
  have hsamples : ∀ n ∈ (s.vTimeOffsets.input (nTime - now.seconds)).vValues,
      -2 ^ 63 ≤ n ∧ n < 2 ^ 63 := by
    intro n hn
    rcases mem_vValues_input hn with hold | rfl
    · exact hs.samples n hold
    · exact ⟨hlow, hhigh⟩
  have hnext : ClockOk { s with
      setKnown := insert ip s.setKnown
      vTimeOffsets := s.vTimeOffsets.input (nTime - now.seconds) } :=
    ⟨hs.noNtp, hs.offset, hsamples⟩
  split
  · next hsize =>
    refine ⟨?_, fun s' h => adoptMedian_clockOk hnext h⟩
    rw [adoptMedian_isSome_iff (fun n hn => (hsamples n (mem_vSorted_input.mp hn)).1)
      (by rw [length_vSorted_input]; exact hsize.2), mem_vSorted_input]
    simp [hsize.1, hsize.2]
  · next hsize =>
    refine ⟨?_, fun s' h => Option.some.inj h ▸ hnext⟩
    simp only [Option.pure_def, isSome_some, true_iff]
    exact fun hfive hodd => absurd ⟨hfive, hodd⟩ hsize

theorem getAdjustedTime_spec (hs : ClockOk s) (now : LocalTime) :
    (getAdjustedTime now).Holds s ↔ (getAdjustedTime now).Fits s := by
  have hmax : abs64 INT64_MAX = some INT64_MAX := by decide
  simp only [Holds, Fits, GetAdjustedTime, hs.noNtp, hmax,
    bind_eq_bind, bind_some]
  rcases hs.offset with hoff | hnear
  · rw [hoff, hmax, bind_some]
    exact iff_of_true ⟨_, rfl, by simp⟩ (Or.inl rfl)
  · have hbounds := abs_lt.mp hnear
    have hne : s.nPeersOffset ≠ INT64_MAX := by
      unfold INT64_MAX
      omega
    rw [abs64_of_ne (by omega) (by unfold INT64_MIN; omega)]
    simp only [bind_some, hnear, if_true, hne, false_or]
    constructor
    · rintro ⟨_, hsum, -⟩
      exact (isSome_int64.mp (isSome_of_eq_some hsum)).2
    · intro hsum
      exact ⟨_, int64_of_fits (by linarith [now.nonneg]) hsum, by simpa using hnear⟩

theorem clockCall_spec (hs : ClockOk s) (call : ClockCall) :
    (call.Holds s ↔ call.Fits s) ∧ (call.Holds s → (call.run s).isSome) ∧
      ∀ s', call.run s = some s' → ClockOk s' := by
  cases call with
  | addTimeData ip nTime hfits now =>
    obtain ⟨hiff, hkeep⟩ := addTimeData_spec hs hfits now
    exact ⟨hiff, id, hkeep⟩
  | getAdjustedTime now =>
    refine ⟨getAdjustedTime_spec hs now, ?_, ?_⟩
    · rintro ⟨nTime, hread, -⟩
      simp [run, hread]
    · intro s' h
      obtain ⟨nTime, -, rfl⟩ := map_eq_some_iff.mp h
      exact hs

/-! ## Runs of calls -/

/-- In a run from the start of the program, the adjusted time stays within an hour of the clock and
nothing overflows if and only if every call fits the state that it finds. -/
theorem clockCalls_hold_iff (calls : List ClockCall) :
    (∀ before call after, calls = before ++ call :: after →
        ∃ s, before.foldlM run start = some s ∧ call.Holds s) ↔
      ∀ before call after, calls = before ++ call :: after →
        ∀ s, before.foldlM run start = some s → call.Fits s :=
  foldlM_holds_iff (fun _ call hs => clockCall_spec hs call) clockOk_start

/-- What the peer with a number sends, if its time differs from ours by the least `int64`. -/
def extremePeer (n : UInt8) : ClockCall :=
  .addTimeData (List.replicate 15 0 ++ [n]) (-2 ^ 63 + 1700000000) (by decide)
    ⟨1700000000, by decide, by decide⟩

def extremePeers : List ClockCall := [1, 2, 3, 4].map extremePeer

/-- The absolute value of their median overflows. -/
theorem extremePeers_overflow :
    ¬ ∀ before call after, extremePeers = before ++ call :: after →
      ∃ s, before.foldlM run start = some s ∧ call.Holds s := by
  intro h
  obtain ⟨s, hrun, hholds⟩ := h ([1, 2, 3].map extremePeer) (extremePeer 4) [] rfl
  have hnone : (([1, 2, 3].map extremePeer).foldlM run start).bind
      (run · (extremePeer 4)) = none := by decide
  rw [hrun, bind_some] at hnone
  have hsome : (run s (extremePeer 4)).isSome := hholds
  simp [hnone] at hsome

end Phoenixcoin.Analysis
