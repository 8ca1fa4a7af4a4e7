import Phoenixcoin.Analysis.Scanning
import Phoenixcoin.Program.Iterators

/-!
# Both backends scan alike

The two iterators keep the same position on the same records, and so show their callers the
same, unless an iterator without a prefix is sent to the empty key: Berkeley DB goes to the
first record then, and LMDB refuses the request. A scan from the first record on shows every
record with the prefix once, in the order of the keys.
-/

set_option autoImplicit false

namespace Phoenixcoin.Analysis

open Program List Option CBDBIterator

/-! ## One call -/

/-- The cursors stand at the same place, and there was the same error. -/
structure SameCursor (b : CBDBIterator) (l : CLMDBPrefixIterator) : Prop where
  records : l.records = b.records
  keyPrefix : l.keyPrefix = b.keyPrefix
  cursor : b.cursor = some l.cursor
  error : l.fError = b.fError

/-- The current records are the same too. -/
structure Alike (b : CBDBIterator) (l : CLMDBPrefixIterator) : Prop extends SameCursor b l where
  valid : l.valid = b.valid
  current : b.valid = true → l.mdbKey = b.currentKey ∧ l.mdbValue = b.currentValue

variable (contents : DbContents)

theorem create_alike (keyPrefix : CDBKey) :
    Alike (.create false contents keyPrefix) (.create contents keyPrefix) :=
  ⟨⟨rfl, rfl, rfl, rfl⟩, rfl, fun h => by cases h⟩

variable {b : CBDBIterator} {l : CLMDBPrefixIterator}

theorem Alike.view_eq (h : Alike b l) : l.view = b.view := by
  unfold CLMDBPrefixIterator.view view isValid key
    value CLMDBPrefixIterator.key CLMDBPrefixIterator.value
  rw [h.valid, h.error, h.cursor]
  cases hvalid : b.valid with
  | false => simp
  | true =>
    obtain ⟨hkey, hvalue⟩ := h.current hvalid
    rw [hkey, hvalue]
    simp only [not_true_eq_false, false_or, if_true, isSome_some, Bool.and_true]
    congr 1
    · split
      · next hnil => exact hnil.symm
      · rfl
    · split
      · next hnil => exact hnil.symm
      · rfl

theorem SameCursor.get_alike (h : SameCursor b l) {op : CursorGet} (hop : op ≠ .setRange []) :
    Alike (b.fetch false op).2.checkPrefix (l.get op) := by
  unfold fetch clear CLMDBPrefixIterator.get mdbCursorGet
  rw [if_neg hop, h.records]
  rw [h.cursor]
  dsimp only
  cases htarget : op.target b.records l.cursor with
  | none => exact ⟨⟨rfl, h.keyPrefix, rfl, h.error⟩, rfl, fun hvalid => by cases hvalid⟩
  | some i =>
    refine ⟨⟨rfl, h.keyPrefix, rfl, h.error⟩, ?_, fun _ => ⟨rfl, rfl⟩⟩
    rw [h.keyPrefix]
    cases b.keyPrefix with
    | nil => rfl
    | cons byte keyPrefix => rfl

theorem SameCursor.getRange_alike (h : SameCursor b l) {key : CDBKey} (hkey : key ≠ []) :
    Alike (b.fetch false (.setRange key)).2.checkPrefix (l.getRange key) := by
  have hset : SameCursor b { l with mdbKey := key } := ⟨h.records, h.keyPrefix, h.cursor, h.error⟩
  refine hset.get_alike fun heq => hkey ?_
  injection heq

def effectiveKey (keyPrefix seekKey : CDBKey) : CDBKey :=
  if keyPrefix ≠ [] ∧ seekKey < keyPrefix then keyPrefix else seekKey

theorem effectiveKey_eq_nil_iff (keyPrefix seekKey : CDBKey) :
    effectiveKey keyPrefix seekKey = [] ↔ keyPrefix = [] ∧ seekKey = [] := by
  unfold effectiveKey
  cases keyPrefix with
  | nil => simp
  | cons byte keyPrefix =>
    cases seekKey with
    | nil => simp
    | cons byte' seekKey =>
      split <;> simp

theorem Alike.apply (h : Alike b l) {op : IteratorOp}
    (hop : b.keyPrefix = [] → op ≠ .seek []) : Alike (b.apply op) (l.apply op) := by
  cases op with
  | seekToFirst =>
    unfold CBDBIterator.apply CLMDBPrefixIterator.apply CBDBIterator.seekToFirst
      CLMDBPrefixIterator.seekToFirst
    dsimp only
    rw [h.keyPrefix]
    split
    · exact h.toSameCursor.get_alike (by simp)
    · next hnil => exact h.toSameCursor.getRange_alike hnil
  | seek key =>
    have heffective : effectiveKey b.keyPrefix key ≠ [] := by
      rw [ne_eq, effectiveKey_eq_nil_iff]
      rintro ⟨hnil, rfl⟩
      exact hop hnil rfl
    unfold CBDBIterator.apply CLMDBPrefixIterator.apply CBDBIterator.seek CLMDBPrefixIterator.seek
    rw [h.keyPrefix]
    change Alike (b.fetch false (if effectiveKey b.keyPrefix key = [] then .first
      else .setRange (effectiveKey b.keyPrefix key))).2.checkPrefix
      (l.getRange (effectiveKey b.keyPrefix key))
    rw [if_neg heffective]
    exact h.toSameCursor.getRange_alike heffective
  | next =>
    unfold CBDBIterator.apply CLMDBPrefixIterator.apply CBDBIterator.next CLMDBPrefixIterator.next
    rw [h.cursor, h.valid]
    by_cases hvalid : b.valid = true
    · rw [if_neg (by simp [hvalid]), if_neg (by simp [hvalid])]
      exact h.toSameCursor.get_alike (by simp)
    · rw [if_pos (Or.inr hvalid), if_pos hvalid]
      exact h

theorem apply_keyPrefix (b : CBDBIterator) (op : IteratorOp) :
    (b.apply op).keyPrefix = b.keyPrefix := by
  cases op with
  | seekToFirst => exact (checkPrefix_records b false _).2
  | seek key => exact (checkPrefix_records b false _).2
  | next =>
    unfold apply CBDBIterator.next
    dsimp only
    split
    · rfl
    · exact (checkPrefix_records b false _).2

theorem fetch_error (b : CBDBIterator) (op : CursorGet) :
    (b.fetch false op).2.checkPrefix.fError = b.fError := by
  unfold fetch clear
  dsimp only
  split
  · rfl
  · rw [if_neg Bool.false_ne_true]
    split <;> rfl

theorem apply_error (b : CBDBIterator) (op : IteratorOp) : (b.apply op).fError = b.fError := by
  cases op with
  | seekToFirst => exact fetch_error b _
  | seek key => exact fetch_error b _
  | next =>
    unfold apply CBDBIterator.next
    dsimp only
    split
    · rfl
    · exact fetch_error b _

theorem seek_nil_error (hnil : l.keyPrefix = []) : (l.apply (.seek [])).fError = true := by
  unfold CLMDBPrefixIterator.apply CLMDBPrefixIterator.seek CLMDBPrefixIterator.getRange
    CLMDBPrefixIterator.get mdbCursorGet
  simp [hnil]

/-! ## Runs -/

theorem Alike.views_eq_iff (ops : List IteratorOp) :
    ∀ {b : CBDBIterator} {l : CLMDBPrefixIterator}, Alike b l → b.fError = false →
      (views CLMDBPrefixIterator.apply CLMDBPrefixIterator.view l ops =
          views CBDBIterator.apply CBDBIterator.view b ops ↔
        (b.keyPrefix = [] → .seek [] ∉ ops)) := by
  induction ops with
  | nil =>
    simp [views]
  | cons op ops ih =>
    intro b l h herror
    by_cases hop : b.keyPrefix = [] → op ≠ .seek []
    · have hnext := h.apply hop
      have hrest := ih hnext ((apply_error b op).trans herror)
      rw [apply_keyPrefix] at hrest
      unfold views
      rw [hnext.view_eq, List.cons.injEq, and_iff_right rfl, hrest]
      constructor
      · intro hmem hnil
        rw [mem_cons, not_or]
        exact ⟨fun heq => hop hnil heq.symm, hmem hnil⟩
      · intro hmem hnil hin
        exact hmem hnil (mem_cons_of_mem op hin)
    · obtain ⟨hnil, heq⟩ : b.keyPrefix = [] ∧ op = .seek [] := by simpa using hop
      have hdiffer : (l.apply op).fError ≠ (b.apply op).fError := by
        rw [heq, seek_nil_error (h.keyPrefix.trans hnil), apply_error, herror]
        decide
      constructor
      · intro hsame
        have hview := (List.cons.inj hsame).1
        exact absurd (congrArg IteratorView.error hview) hdiffer
      · intro hmem
        exact absurd (heq ▸ mem_cons_self) (hmem hnil)

/-! ## Scans -/

structure Enumerates (contents : DbContents) (keyPrefix : CDBKey) (records : List Record) :
    Prop where
  increasing : records.Pairwise fun r r' => r.1 < r'.1
  exactly : ∀ key value, (key, value) ∈ records ↔
    contents.lookup key = some value ∧ keyHasPrefix key keyPrefix = true

theorem sortedRecords_filter_enumerates (keyPrefix : CDBKey) :
    Enumerates contents keyPrefix
      ((sortedRecords contents).filter fun record => keyHasPrefix record.1 keyPrefix) := by
  constructor
  · refine List.Pairwise.filter _ ?_
    rw [sortedRecords, pairwise_filterMap]
    have hincreasing : (contents.keys.sort (· ≤ ·)).Pairwise (· < ·) :=
      (Finset.pairwise_sort contents.keys _).imp₂ (fun _ _ hle hne => Std.lt_of_le_of_ne hle hne)
        (Finset.sort_nodup contents.keys _)
    refine hincreasing.imp fun hlt record hrecord record' hrecord' => ?_
    obtain ⟨value, -, rfl⟩ := map_eq_some_iff.mp hrecord
    obtain ⟨value', -, rfl⟩ := map_eq_some_iff.mp hrecord'
    exact hlt
  · intro key value
    rw [mem_filter]
    refine and_congr_left fun _ => ?_
    rw [sortedRecords, mem_filterMap]
    constructor
    · rintro ⟨key', -, hmap⟩
      obtain ⟨value', hlookup, heq⟩ := map_eq_some_iff.mp hmap
      cases heq
      exact hlookup
    · intro hlookup
      refine ⟨key, ?_, ?_⟩
      · rw [Finset.mem_sort]
        exact Finmap.mem_of_lookup_eq_some hlookup
      · rw [hlookup]
        rfl

/-! The scan itself: what a caller sees of it. -/

def viewOf (record : Record) : IteratorView := ⟨true, record.1, record.2, false⟩

def endView : IteratorView := ⟨false, [], [], false⟩

theorem view_ended (hcursor : b.cursor.isSome) (hended : Ended b) (herror : b.fError = false) :
    b.view = endView := by
  rw [Ended, isValid, hcursor, Bool.and_true] at hended
  unfold view isValid key value endView
  simp [hended, herror]

theorem fetch_cursor (hcursor : b.cursor.isSome) (op : CursorGet) :
    (b.fetch false op).2.checkPrefix.cursor.isSome := by
  obtain ⟨pos, hpos⟩ := isSome_iff_exists.mp hcursor
  rw [fetch, clear, hpos]
  dsimp only
  rw [if_neg Bool.false_ne_true]
  split <;> rfl

theorem views_next (records : List Record) :
    ∀ {b : CBDBIterator} {i : ℕ}, At b i →
      (b.records.drop i).takeWhile (fun record => keyHasPrefix record.1 b.keyPrefix) = records →
      b.view :: views apply view b (.replicate records.length .next) =
        records.map viewOf ++ [endView] := by
  induction records with
  | nil =>
    intro b i hat htake
    obtain ⟨hi, hrecord⟩ := List.getElem?_eq_some_iff.mp hat.record
    rw [drop_eq_getElem_cons hi, hrecord, takeWhile_cons] at htake
    have hno : b.valid = false := by
      rw [hat.valid]
      split at htake
      · cases htake
      · next hno => exact Bool.not_eq_true _ ▸ hno
    have hended : Ended b := by
      rw [Ended, isValid, hno, Bool.false_and]
    rw [view_ended (by rw [hat.cursor]; rfl) hended hat.noError]
    rfl
  | cons record records ih =>
    intro b i hat htake
    obtain ⟨hi, hrecord⟩ := List.getElem?_eq_some_iff.mp hat.record
    rw [drop_eq_getElem_cons hi, hrecord, takeWhile_cons] at htake
    split at htake
    · next hnil =>
      obtain ⟨rfl, hrest⟩ := List.cons.inj htake
      have hvalid : b.valid = true := hat.valid.trans hnil
      have hview : b.view = viewOf (b.currentKey, b.currentValue) := by
        unfold view isValid key value viewOf
        simp [hvalid, hat.cursor, hat.noError]
      have hnext : b.apply .next = (b.fetch false .next).2.checkPrefix := by
        unfold apply CBDBIterator.next
        simp [hvalid, hat.cursor]
      have herror := (fetch_error b .next).trans hat.noError
      obtain ⟨hrecords, hkeyPrefix⟩ := checkPrefix_records b false .next
      rw [length_cons, replicate_succ]
      rw [views, hnext]
      congr 1
      rcases fetch_ends b false .next hat.cursor hat.noError with
        ⟨-, hset⟩ | ⟨hended, htarget⟩ | ⟨j, htarget, hat'⟩
      · rw [hset] at herror
        cases herror
      · -- the record was the last one
        have hlast : b.records.length ≤ i + 1 := by
          by_contra hmore
          rw [show CursorGet.next.target b.records (some i) = some (i + 1)
            from if_pos (not_le.mp hmore)] at htarget
          cases htarget
        rw [drop_eq_nil_of_le hlast] at hrest
        subst hrest
        rw [view_ended (fetch_cursor (by rw [hat.cursor]; rfl) .next) hended herror]
        rfl
      · obtain ⟨hj, rfl⟩ : i + 1 < b.records.length ∧ i + 1 = j := by
          unfold CursorGet.target at htarget
          dsimp only [Option.elim] at htarget
          split at htarget
          · next hj => exact ⟨hj, Option.some.inj htarget⟩
          · cases htarget
        refine ih (hat' hj) ?_
        rw [hrecords, hkeyPrefix]
        exact hrest
    · cases htake

theorem views_scan (keyPrefix : CDBKey) {records : List Record}
    (hrecords : (sortedRecords contents).filter (fun record => keyHasPrefix record.1 keyPrefix) =
      records) :
    views apply view (.create false contents keyPrefix)
        (.seekToFirst :: .replicate records.length .next) =
      records.map viewOf ++ [endView] := by
  have htarget := seekTarget_spec keyPrefix (sortedRecords_sorted contents)
  have herror := fetch_error (.create false contents keyPrefix)
    (if keyPrefix = [] then .first else .setRange keyPrefix)
  obtain ⟨hsame, hkeyPrefix⟩ := checkPrefix_records (.create false contents keyPrefix) false
    (if keyPrefix = [] then .first else .setRange keyPrefix)
  change view (fetch false
      (if keyPrefix = [] then .first else .setRange keyPrefix) _).2.checkPrefix :: views _ _
      (fetch false
        (if keyPrefix = [] then .first else .setRange keyPrefix) _).2.checkPrefix _ = _
  rcases fetch_ends (.create false contents keyPrefix) false
    (if keyPrefix = [] then .first else .setRange keyPrefix) rfl rfl with
    ⟨-, hset⟩ | ⟨hended, hnone⟩ | ⟨i, hsome, hat⟩
  · rw [hset] at herror
    cases herror
  · have hrec : (create false contents keyPrefix).records =
        sortedRecords contents := rfl
    rw [hrec] at hnone
    rw [hnone] at htarget
    rw [htarget] at hrecords
    subst hrecords
    rw [view_ended (fetch_cursor rfl _) hended herror]
    rfl
  · have hrec : (create false contents keyPrefix).records =
        sortedRecords contents := rfl
    rw [hrec] at hsome
    rw [hsome] at htarget
    obtain ⟨hi, htake⟩ := htarget
    refine views_next records (hat hi) ?_
    rw [hsame, hkeyPrefix]
    exact htake.trans hrecords

/-- The iterators of both backends show the same after each of the calls, and a scan with either
shows the records with the prefix. -/
structure ScansAlike (contents : DbContents) (keyPrefix : CDBKey) (ops : List IteratorOp) :
    Prop where
  views : views CLMDBPrefixIterator.apply CLMDBPrefixIterator.view
      (.create contents keyPrefix) ops =
    views apply view (.create false contents keyPrefix) ops
  scans : ∃ records, Enumerates contents keyPrefix records ∧
    Program.views apply view (.create false contents keyPrefix)
        (.seekToFirst :: .replicate records.length .next) = records.map viewOf ++ [endView] ∧
    Program.views CLMDBPrefixIterator.apply CLMDBPrefixIterator.view (.create contents keyPrefix)
        (.seekToFirst :: .replicate records.length .next) = records.map viewOf ++ [endView]

/-- The backends scan alike as long as no iterator without a prefix is sent to the empty key. -/
theorem scansAlike_iff (contents : DbContents) (keyPrefix : CDBKey) (ops : List IteratorOp) :
    ScansAlike contents keyPrefix ops ↔ (keyPrefix = [] → .seek [] ∉ ops) := by
  have hviews (ops : List IteratorOp) := (create_alike contents keyPrefix).views_eq_iff ops rfl
  constructor
  · intro h
    exact (hviews ops).mp h.views
  · intro hops
    refine ⟨(hviews ops).mpr hops, _, sortedRecords_filter_enumerates contents keyPrefix,
      views_scan contents keyPrefix rfl, ?_⟩
    rw [(hviews _).mpr, views_scan contents keyPrefix rfl]
    intro _ hmem
    rw [mem_cons, mem_replicate] at hmem
    rcases hmem with h | ⟨-, h⟩
    · cases h
    · cases h

/-- A database with one record. -/
def sampleContents : DbContents := (∅ : DbContents).insert [1] [2]

theorem scans_differ : ¬ ScansAlike sampleContents [] [.seek []] := by
  intro h
  exact absurd h.views (by with_unfolding_all decide)

end Phoenixcoin.Analysis
