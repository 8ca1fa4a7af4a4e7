import Phoenixcoin.Program.Cursors

/-!
# Scans see everything or report an error

A scan with `CBDBIterator` that ends without an error has seen every record with its prefix:
an early end because of a cursor error shows in `Error()`.
-/

set_option autoImplicit false

namespace Phoenixcoin.Analysis

open Program List CBDBIterator

/-! ## Keys with a prefix -/

variable {keyPrefix : CDBKey} {records : List Record}

theorem le_of_keyHasPrefix {key : CDBKey} (h : keyHasPrefix key keyPrefix = true) :
    keyPrefix ≤ key :=
  (List.isPrefixOf_iff_prefix.mp h).le

theorem keyHasPrefix_of_le (keyPrefix : CDBKey) :
    ∀ {key key' : CDBKey}, keyPrefix ≤ key → key ≤ key' → keyHasPrefix key' keyPrefix = true →
      keyHasPrefix key keyPrefix = true := by
  induction keyPrefix with
  | nil => exact fun _ _ _ => rfl
  | cons byte keyPrefix ih =>
    intro key key' hle hle' hbegins
    cases key with
    | nil => exact absurd hle (by simp)
    | cons a key =>
      cases key' with
      | nil => exact absurd hle' (by simp)
      | cons b key' =>
        obtain ⟨rfl, htail⟩ : byte = b ∧ keyHasPrefix key' keyPrefix = true := by
          simpa [keyHasPrefix] using hbegins
        rw [cons_le_cons_iff] at hle hle'
        have ha : a = byte := by
          rcases hle with hlt | ⟨heq, -⟩
          · rcases hle' with hlt' | ⟨heq', -⟩
            · exact absurd hlt' (UInt8.lt_asymm hlt)
            · exact heq'
          · exact heq.symm
        subst ha
        have hrest : keyPrefix ≤ key := by
          rcases hle with hlt | ⟨-, hrest⟩
          · exact absurd hlt (UInt8.lt_irrefl _)
          · exact hrest
        have hrest' : key ≤ key' := by
          rcases hle' with hlt | ⟨-, hrest⟩
          · exact absurd hlt (UInt8.lt_irrefl _)
          · exact hrest
        simpa [keyHasPrefix] using ih hrest hrest' htail

def SortedByKey (records : List Record) : Prop := records.Pairwise fun r r' => r.1 ≤ r'.1

theorem sortedRecords_sorted (contents : DbContents) : SortedByKey (sortedRecords contents) := by
  rw [SortedByKey, sortedRecords, pairwise_filterMap]
  refine (Finset.pairwise_sort contents.keys (· ≤ ·)).imp
    fun hle record hrecord record' hrecord' => ?_
  obtain ⟨value, -, rfl⟩ := Option.map_eq_some_iff.mp hrecord
  obtain ⟨value', -, rfl⟩ := Option.map_eq_some_iff.mp hrecord'
  exact hle

theorem takeWhile_eq_filter (hsorted : SortedByKey records)
    (hle : ∀ record ∈ records, keyPrefix ≤ record.1) :
    records.takeWhile (fun record => keyHasPrefix record.1 keyPrefix) =
      records.filter fun record => keyHasPrefix record.1 keyPrefix := by
  induction records with
  | nil => rfl
  | cons record records ih =>
    obtain ⟨hfirst, hrest⟩ := pairwise_cons.mp hsorted
    rw [takeWhile_cons, filter_cons]
    split
    · rw [ih hrest fun r hr => hle r (mem_cons_of_mem _ hr)]
    · next hno =>
      symm
      rw [filter_eq_nil_iff]
      intro r hr hbegins
      exact hno (keyHasPrefix_of_le keyPrefix (hle record mem_cons_self) (hfirst r hr) hbegins)

theorem takeWhile_drop_eq_filter {i : ℕ} (hsorted : SortedByKey records)
    (hbefore : ∀ record ∈ records.take i, keyHasPrefix record.1 keyPrefix = false)
    (hle : ∀ record ∈ records.drop i, keyPrefix ≤ record.1) :
    (records.drop i).takeWhile (fun record => keyHasPrefix record.1 keyPrefix) =
      records.filter fun record => keyHasPrefix record.1 keyPrefix := by
  rw [takeWhile_eq_filter (hsorted.sublist (drop_sublist i records)) hle]
  conv_rhs => rw [← take_append_drop i records, filter_append]
  have hnone : (records.take i).filter (fun record => keyHasPrefix record.1 keyPrefix) = [] := by
    rw [filter_eq_nil_iff]
    intro record hrecord
    rw [hbefore record hrecord]
    exact Bool.false_ne_true
  rw [hnone, nil_append]

/-! ## The loop of a scan -/

/-- The iterator stands at the record with index `i`, unless that lacks the prefix. -/
structure At (it : CBDBIterator) (i : ℕ) : Prop where
  cursor : it.cursor = some (some i)
  record : it.records[i]? = some (it.currentKey, it.currentValue)
  valid : it.valid = keyHasPrefix it.currentKey it.keyPrefix
  noError : it.fError = false

def Ended (it : CBDBIterator) : Prop := it.isValid = false

theorem collect_ended {it : CBDBIterator} (h : Ended it) (fails : ℕ → Bool) (fuel nCalls : ℕ) :
    collect fails fuel nCalls it = ([], it) := by
  cases fuel with
  | zero => rfl
  | succ fuel =>
    rw [collect, if_neg (by rw [h]; exact Bool.false_ne_true)]

theorem fetch_ends (it : CBDBIterator) (fails : Bool) (flags : CursorGet) {pos : Option ℕ}
    (hcursor : it.cursor = some pos) (herror : it.fError = false) :
    (Ended (it.fetch fails flags).2.checkPrefix ∧
      (it.fetch fails flags).2.checkPrefix.fError = true) ∨
      (Ended (it.fetch fails flags).2.checkPrefix ∧ flags.target it.records pos = none) ∨
      ∃ i, flags.target it.records pos = some i ∧
        (i < it.records.length → At (it.fetch fails flags).2.checkPrefix i) := by
  rw [fetch, clear, hcursor]
  dsimp only
  cases fails with
  | true => exact Or.inl ⟨rfl, rfl⟩
  | false =>
    cases htarget : flags.target it.records pos with
    | none => exact Or.inr (Or.inl ⟨rfl, rfl⟩)
    | some i =>
      refine Or.inr (Or.inr ⟨i, rfl, fun hi => ⟨rfl, ?_, ?_, herror⟩⟩)
      · simp [checkPrefix, hi]
      · simp [checkPrefix, matchesPrefix]

theorem checkPrefix_records (it : CBDBIterator) (fails : Bool) (flags : CursorGet) :
    (it.fetch fails flags).2.checkPrefix.records = it.records ∧
      (it.fetch fails flags).2.checkPrefix.keyPrefix = it.keyPrefix := by
  unfold fetch clear
  dsimp only
  split
  · exact ⟨rfl, rfl⟩
  · split
    · exact ⟨rfl, rfl⟩
    · split
      · exact ⟨rfl, rfl⟩
      · exact ⟨rfl, rfl⟩

theorem collect_at (fails : ℕ → Bool) (fuel : ℕ) :
    ∀ {it : CBDBIterator} {i nCalls : ℕ}, it.records.length < i + fuel → At it i →
      (collect fails fuel nCalls it).2.fError = false →
        (collect fails fuel nCalls it).1 =
          (it.records.drop i).takeWhile fun record => keyHasPrefix record.1 it.keyPrefix := by
  induction fuel with
  | zero =>
    intro it i nCalls hfuel hat _
    obtain ⟨hi, -⟩ := List.getElem?_eq_some_iff.mp hat.record
    omega
  | succ fuel ih =>
    intro it i nCalls hfuel hat herror
    obtain ⟨hi, hrecord⟩ := List.getElem?_eq_some_iff.mp hat.record
    rw [drop_eq_getElem_cons hi, hrecord, takeWhile_cons]
    unfold collect at herror ⊢
    by_cases hvalid : keyHasPrefix it.currentKey it.keyPrefix = true
    · have hset : it.valid = true := hat.valid.trans hvalid
      have hisValid : it.isValid = true := by
        simp [isValid, hset, hat.cursor]
      rw [if_pos hisValid] at herror ⊢
      rw [if_pos hvalid]
      dsimp only at herror ⊢
      have hnext : it.next (fails nCalls) = (it.fetch (fails nCalls) .next).2.checkPrefix := by
        simp [CBDBIterator.next, hat.cursor, hset]
      rw [hnext] at herror ⊢
      obtain ⟨hrecords, hkeyPrefix⟩ := checkPrefix_records it (fails nCalls) .next
      have hkey : it.key = it.currentKey := if_pos hset
      have hvalue : it.value = it.currentValue := if_pos hset
      rw [hkey, hvalue]
      rcases fetch_ends it (fails nCalls) .next hat.cursor hat.noError with
        ⟨hended, hset⟩ | ⟨hended, htarget⟩ | ⟨j, htarget, hat'⟩
      · rw [collect_ended hended, hset] at herror
        contradiction
      · rw [collect_ended hended]
        have hlast : it.records.length ≤ i + 1 := by
          by_contra hmore
          have hsome : CursorGet.next.target it.records (some i) = some (i + 1) :=
            if_pos (not_le.mp hmore)
          rw [hsome] at htarget
          contradiction
        rw [drop_eq_nil_of_le hlast]
        rfl
      · obtain ⟨hj, rfl⟩ : i + 1 < it.records.length ∧ i + 1 = j := by
          have htarget : (if i + 1 < it.records.length then some (i + 1) else none) = some j :=
            htarget
          split at htarget
          · next hj => exact ⟨hj, Option.some.inj htarget⟩
          · contradiction
        rw [ih (by rw [hrecords]; omega) (hat' hj) herror, hrecords, hkeyPrefix]
    · have hset : it.valid = false := hat.valid.trans (Bool.not_eq_true _ ▸ hvalid)
      rw [if_neg (by simp [isValid, hset]), if_neg hvalid]

theorem seekTarget_spec (keyPrefix : CDBKey) (hsorted : SortedByKey records) :
    match (if keyPrefix = [] then CursorGet.first else .setRange keyPrefix).target records none with
    | none => records.filter (fun record => keyHasPrefix record.1 keyPrefix) = []
    | some i => i < records.length ∧
        (records.drop i).takeWhile (fun record => keyHasPrefix record.1 keyPrefix) =
          records.filter fun record => keyHasPrefix record.1 keyPrefix := by
  by_cases hbegins : keyPrefix = []
  · rw [hbegins]
    cases records with
    | nil => rfl
    | cons record records =>
      exact ⟨Nat.zero_lt_succ _, takeWhile_drop_eq_filter hsorted (by simp) (by simp)⟩
  · rw [if_neg hbegins]
    dsimp only [CursorGet.target]
    cases hfind : records.findIdx? fun record => keyPrefix ≤ record.1 with
    | none =>
      rw [filter_eq_nil_iff]
      intro record hrecord hhas
      have hbelow := findIdx?_eq_none_iff.mp hfind record hrecord
      exact of_decide_eq_false hbelow (le_of_keyHasPrefix hhas)
    | some i =>
      obtain ⟨hi, hfirst, hbefore⟩ := findIdx?_eq_some_iff_getElem.mp hfind
      refine ⟨hi, takeWhile_drop_eq_filter hsorted (fun record hrecord => ?_)
        fun record hrecord => ?_⟩
      · obtain ⟨j, hj, rfl⟩ := mem_take_iff_getElem.mp hrecord
        refine Bool.not_eq_true _ ▸ fun hhas => ?_
        exact hbefore j (by omega) (decide_eq_true (le_of_keyHasPrefix hhas))
      · rw [drop_eq_getElem_cons hi] at hrecord
        have hle : keyPrefix ≤ records[i].1 := of_decide_eq_true hfirst
        rcases mem_cons.mp hrecord with rfl | hlater
        · exact hle
        · have hsorted' := hsorted.sublist (drop_sublist i records)
          rw [drop_eq_getElem_cons hi] at hsorted'
          exact List.le_trans hle ((pairwise_cons.mp hsorted').1 record hlater)

theorem scan_complete (contents : DbContents) (keyPrefix : CDBKey) (fOpenFails : Bool)
    (fails : ℕ → Bool)
    (h : ((create fOpenFails contents keyPrefix).scan fails).2.fError = false) :
    ((create fOpenFails contents keyPrefix).scan fails).1 =
      (sortedRecords contents).filter fun record => keyHasPrefix record.1 keyPrefix := by
  unfold scan seekToFirst at h ⊢
  have hkey : (create fOpenFails contents keyPrefix).keyPrefix = keyPrefix := rfl
  simp only [hkey] at h ⊢
  cases fOpenFails with
  | true =>
    -- no cursor, and the error is set from the beginning
    have hended : Ended (((create true contents keyPrefix).fetch (fails 0)
        (if keyPrefix = [] then .first else .setRange keyPrefix)).2.checkPrefix) := rfl
    rw [collect_ended hended] at h
    contradiction
  | false =>
    obtain ⟨hrecords, hkeyPrefix⟩ := checkPrefix_records
      (create false contents keyPrefix) (fails 0)
      (if keyPrefix = [] then .first else .setRange keyPrefix)
    have htarget := seekTarget_spec keyPrefix (sortedRecords_sorted contents)
    have hrec : (create false contents keyPrefix).records = sortedRecords contents := rfl
    rcases fetch_ends (create false contents keyPrefix) (fails 0)
      (if keyPrefix = [] then .first else .setRange keyPrefix) rfl rfl with
      ⟨hended, hset⟩ | ⟨hended, hnone⟩ | ⟨i, hsome, hat⟩
    · rw [collect_ended hended, hset] at h
      contradiction
    · rw [hrec] at hnone
      rw [hnone] at htarget
      rw [collect_ended hended, htarget]
    · rw [hrec] at hsome
      rw [hsome] at htarget
      obtain ⟨hi, htake⟩ := htarget
      rw [collect_at fails _ (by rw [hrecords]; omega) (hat hi) h, hrecords, hkeyPrefix]
      exact htake

end Phoenixcoin.Analysis
