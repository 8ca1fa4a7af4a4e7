import Phoenixcoin.Program.LmdbEnv
import Mathlib.Data.Finset.Sort

/-!
# Cursors and iterators

The scans of `bdb_kv.cpp` and `lmdb_kv.cpp`. A cursor moves over the records of a database in
the order of their keys. Each call on it gets a flag that says whether the library fails for
another reason than the end of the data.
-/

set_option autoImplicit false

namespace Phoenixcoin.Program

open Lib

abbrev Record : Type := CDBKey × CDBValue

/-- The records of a database in the order that a cursor meets them in. -/
def sortedRecords (contents : DbContents) : List Record :=
  (contents.keys.sort (· ≤ ·)).filterMap fun key =>
    (contents.lookup key).map fun value => (key, value)

/-- What a cursor is asked for: `DB_FIRST`, `MDB_FIRST` and so on. -/
inductive CursorGet where
  | first
  | last
  | next
  | prev
  | setRange (key : CDBKey)
deriving DecidableEq, Repr

/-- The position that a cursor moves to; without one the answer is `DB_NOTFOUND`. A cursor
that has no position yet takes next for first and previous for last. -/
def CursorGet.target (records : List Record) (pos : Option ℕ) : CursorGet → Option ℕ
  | .first => if 0 < records.length then some 0 else none
  | .last => if 0 < records.length then some (records.length - 1) else none
  | .next =>
    let i := pos.elim 0 (· + 1)
    if i < records.length then some i else none
  | .prev =>
    let i := pos.getD records.length
    if 0 < i then some (i - 1) else none
  | .setRange key => records.findIdx? fun record => key ≤ record.1

/-- The smallest key that sorts after every key beginning with the prefix. -/
def prefixUpperBound (keyPrefix : CDBKey) : Option CDBKey :=
  match keyPrefix.reverse.dropWhile (· = 0xff) with
  | [] => none
  | byte :: rest => some (rest.reverse ++ [byte + 1])

def keyHasPrefix (key keyPrefix : CDBKey) : Bool := keyPrefix.isPrefixOf key

/-! ## Berkeley DB -/

structure CBDBIterator where
  records : List Record
  /-- The open cursor and its position. -/
  cursor : Option (Option ℕ)
  keyPrefix : CDBKey
  currentKey : CDBKey
  currentValue : CDBValue
  valid : Bool
  fError : Bool
deriving DecidableEq, Repr

namespace CBDBIterator

variable (fails : Bool)

/-- The constructor, on an open database. -/
def create (contents : DbContents) (keyPrefix : CDBKey) : CBDBIterator where
  records := sortedRecords contents
  cursor := if fails then none else some none
  keyPrefix := keyPrefix
  currentKey := []
  currentValue := []
  valid := false
  fError := fails

variable (it : CBDBIterator)

/-- `Valid`. -/
def isValid : Bool := it.valid && it.cursor.isSome

def matchesPrefix : Bool := keyHasPrefix it.currentKey it.keyPrefix

/-- Forget the current record. -/
def clear : CBDBIterator :=
  { it with valid := false, currentKey := [], currentValue := [] }

def fetch (flags : CursorGet) (it : CBDBIterator) : Bool × CBDBIterator :=
  let it := it.clear
  match it.cursor with
  | none => (false, it)
  | some pos =>
    if fails then (false, { it with fError := true })
    else
      match flags.target it.records pos with
      | none => (false, it)
      | some i =>
        let record := it.records.getD i ([], [])
        (true, { it with
          cursor := some (some i), currentKey := record.1, currentValue := record.2
          valid := true })

/-- `valid = valid && MatchesPrefix()`. -/
def checkPrefix : CBDBIterator :=
  { it with valid := it.valid && it.matchesPrefix }

def seekToFirst (it : CBDBIterator) : CBDBIterator :=
  (it.fetch fails (if it.keyPrefix = [] then .first else .setRange it.keyPrefix)).2.checkPrefix

def seekToLast (fails failsAgain : Bool) (it : CBDBIterator) : CBDBIterator :=
  match (if it.keyPrefix = [] then none else prefixUpperBound it.keyPrefix) with
  | some upper =>
    let (fFound, it) := it.fetch fails (.setRange upper)
    (it.fetch failsAgain (if fFound then .prev else .last)).2.checkPrefix
  | none => (it.fetch fails .last).2.checkPrefix

def seek (seekKey : CDBKey) (it : CBDBIterator) : CBDBIterator :=
  let effective := if it.keyPrefix ≠ [] ∧ seekKey < it.keyPrefix then it.keyPrefix else seekKey
  (it.fetch fails (if effective = [] then .first else .setRange effective)).2.checkPrefix

def next (it : CBDBIterator) : CBDBIterator :=
  if it.cursor.isNone ∨ ¬ it.valid then it else (it.fetch fails .next).2.checkPrefix

def prev (it : CBDBIterator) : CBDBIterator :=
  if it.cursor.isNone ∨ ¬ it.valid then it else (it.fetch fails .prev).2.checkPrefix

def key : CDBKey := if it.valid then it.currentKey else []

def value : CDBValue := if it.valid then it.currentValue else []

/-- The loop of a scan: take records while the iterator is valid. -/
def collect (fails : ℕ → Bool) : ℕ → ℕ → CBDBIterator → List Record × CBDBIterator
  | 0, _, it => ([], it)
  | fuel + 1, nCalls, it =>
    if it.isValid then
      let (records, it') := collect fails fuel (nCalls + 1) (it.next (fails nCalls))
      ((it.key, it.value) :: records, it')
    else ([], it)

/-- A scan from the first record on. Every round moves on by a record. -/
def scan (fails : ℕ → Bool) (it : CBDBIterator) : List Record × CBDBIterator :=
  collect fails (it.records.length + 1) 1 (it.seekToFirst (fails 0))

end CBDBIterator

/-! ## LMDB -/

/-- The part of `CLMDBIterator` that scans without a prefix use. -/
structure CLMDBIterator where
  records : List Record
  /-- The open cursor and its position. -/
  cursor : Option (Option ℕ)
  valid : Bool
  fError : Bool
deriving DecidableEq, Repr

namespace CLMDBIterator

/-- The constructor, on the records that the transaction sees. -/
def create (fails : Bool) (contents : DbContents) : CLMDBIterator where
  records := sortedRecords contents
  cursor := if fails then none else some none
  valid := false
  fError := fails

/-- `Valid`. -/
def isValid (it : CLMDBIterator) : Bool := it.valid && it.cursor.isSome

/-- `mdb_cursor_get`, and what follows it in every method. -/
def get (fails : Bool) (op : CursorGet) (it : CLMDBIterator) : CLMDBIterator :=
  match it.cursor with
  | none => it
  | some pos =>
    if fails then { it with fError := true, valid := false }
    else
      match op.target it.records pos with
      | none => { it with valid := false }
      | some i => { it with cursor := some (some i), valid := true }

def seekToFirst (fails : Bool) (it : CLMDBIterator) : CLMDBIterator := it.get fails .first

def next (fails : Bool) (it : CLMDBIterator) : CLMDBIterator :=
  if it.cursor.isNone ∨ ¬ it.valid then it else it.get fails .next

end CLMDBIterator

end Phoenixcoin.Program
