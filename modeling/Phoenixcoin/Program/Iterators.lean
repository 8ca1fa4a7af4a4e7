import Phoenixcoin.Program.Cursors

/-!
# The iterator interface

`CLMDBIterator` of `lmdb_kv.cpp` with its prefix, and what a caller of `CDBIterator` does and
sees. Here no call fails for another reason than the end of the data or a request that LMDB
does not take.
-/

set_option autoImplicit false

namespace Phoenixcoin.Program

/-! ## LMDB -/

/-- How `mdb_cursor_get` ends: at a record, with `MDB_NOTFOUND`, or with another code. -/
inductive MdbCursorEnd where
  | success (i : ℕ)
  | notFound
  | badValSize
deriving DecidableEq, Repr

/-- `mdb_cursor_get`. A range cannot be set to the empty key. -/
def mdbCursorGet (records : List Record) (pos : Option ℕ) (op : CursorGet) : MdbCursorEnd :=
  if op = .setRange [] then .badValSize
  else
    match op.target records pos with
    | some i => .success i
    | none => .notFound

structure CLMDBPrefixIterator where
  records : List Record
  /-- The position of the open cursor. -/
  cursor : Option ℕ
  keyPrefix : CDBKey
  /-- The last key that was handed to LMDB or that it has given. -/
  mdbKey : CDBKey
  mdbValue : CDBValue
  valid : Bool
  fError : Bool
deriving DecidableEq, Repr

namespace CLMDBPrefixIterator

/-- The constructor, on the records that the transaction sees. -/
def create (contents : DbContents) (keyPrefix : CDBKey) : CLMDBPrefixIterator where
  records := sortedRecords contents
  cursor := none
  keyPrefix := keyPrefix
  mdbKey := []
  mdbValue := []
  valid := false
  fError := false

variable (it : CLMDBPrefixIterator)

def matchesPrefix : Bool :=
  it.keyPrefix.isEmpty || keyHasPrefix it.mdbKey it.keyPrefix

/-- `mdb_cursor_get` with the fields `key` and `value`, and what follows it: `fError` is set
unless the code is 0 or `MDB_NOTFOUND`, and `valid` if it is 0 and the key has the prefix. -/
def get (op : CursorGet) (it : CLMDBPrefixIterator) : CLMDBPrefixIterator :=
  match mdbCursorGet it.records it.cursor op with
  | .success i =>
    let record := it.records.getD i ([], [])
    let it := { it with cursor := some i, mdbKey := record.1, mdbValue := record.2 }
    { it with valid := it.matchesPrefix }
  | .notFound => { it with valid := false }
  | .badValSize => { it with fError := true, valid := false }

/-- Set `key` to what is sought, then seek. -/
def getRange (key : CDBKey) (it : CLMDBPrefixIterator) : CLMDBPrefixIterator :=
  { it with mdbKey := key }.get (.setRange key)

def seekToFirst : CLMDBPrefixIterator :=
  if it.keyPrefix = [] then it.get .first else it.getRange it.keyPrefix

def seek (seekKey : CDBKey) (it : CLMDBPrefixIterator) : CLMDBPrefixIterator :=
  it.getRange (if it.keyPrefix ≠ [] ∧ seekKey < it.keyPrefix then it.keyPrefix else seekKey)

def next : CLMDBPrefixIterator := if ¬ it.valid then it else it.get .next

def key : CDBKey :=
  if ¬ it.valid ∨ it.mdbKey = [] then [] else it.mdbKey

def value : CDBValue :=
  if ¬ it.valid ∨ it.mdbValue = [] then [] else it.mdbValue

end CLMDBPrefixIterator

/-! ## Callers -/

inductive IteratorOp where
  | seekToFirst
  | seek (key : CDBKey)
  | next
deriving DecidableEq, Repr

/-- What `Valid`, `Key`, `Value` and `Error` answer. -/
structure IteratorView where
  valid : Bool
  key : CDBKey
  value : CDBValue
  error : Bool
deriving DecidableEq, Repr

def CBDBIterator.apply (it : CBDBIterator) : IteratorOp → CBDBIterator
  | .seekToFirst => it.seekToFirst false
  | .seek key => it.seek false key
  | .next => it.next false

def CBDBIterator.view (it : CBDBIterator) : IteratorView :=
  ⟨it.isValid, it.key, it.value, it.fError⟩

def CLMDBPrefixIterator.apply (it : CLMDBPrefixIterator) : IteratorOp → CLMDBPrefixIterator
  | .seekToFirst => it.seekToFirst
  | .seek key => it.seek key
  | .next => it.next

def CLMDBPrefixIterator.view (it : CLMDBPrefixIterator) : IteratorView :=
  ⟨it.valid, it.key, it.value, it.fError⟩

/-- What a caller sees after each of its calls. -/
def views {S : Type} (apply : S → IteratorOp → S) (view : S → IteratorView) :
    S → List IteratorOp → List IteratorView
  | _, [] => []
  | it, op :: ops => view (apply it op) :: views apply view (apply it op) ops

end Phoenixcoin.Program
