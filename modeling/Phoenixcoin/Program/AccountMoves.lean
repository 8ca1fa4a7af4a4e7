import Phoenixcoin.Lib.TextFields
import Phoenixcoin.Program.Accounts
import Phoenixcoin.Program.LmdbEnv

/-!
# Moves between accounts

`movecmd` of `rpcwallet.cpp` with `IncOrderPosNext` and `WriteAccountingEntry`, and how an
accounting entry keeps its order position in its comment. Each write and the commit can fail. The
two counters do not run out.
-/

set_option autoImplicit false

namespace Phoenixcoin.Program

open Lib

/-! ## Order positions -/

def i64tostr (n : ℤ) : List UInt8 := printInt 0 n

/-- The comment as it is stored: `WriteOrderPos`, and `mapValue` behind a zero. -/
def storedComment (strComment : List UInt8) (nOrderPos : ℤ) : List UInt8 :=
  if nOrderPos = -1 then strComment
  else strComment ++ 0 :: (mapCodec stringCodec stringCodec).write [(ascii "n", i64tostr nOrderPos)]

/-- `ReadOrderPos` on what follows the first zero of a stored comment; an exception gives none. -/
def CAccountingEntry.ReadOrderPos (acentry : CAccountingEntry) : Option ℤ :=
  match acentry.strComment.dropWhile (· ≠ 0) with
  | [] => some (-1)
  | _ :: bytes =>
    ((mapCodec stringCodec stringCodec).decoder.eval bytes).map fun result =>
      ((mapValueFind result.1 "n").map atoi64).getD (-1)

/-! ## The wallet -/

/-- The engine of the wallet database. -/
inductive WalletBackend where
  | bdb
  | lmdb
deriving DecidableEq, Repr

/-- The wallet as far as `move` changes it: its counters, and the records of the database. -/
structure MoveWallet where
  nOrderPosNext : ℤ
  nAccountingEntryNumber : ℕ
  acentries : Table (List UInt8 × ℕ) CAccountingEntry
  orderposnext : Option ℤ

/-- Which calls of the database succeed in a `move`. -/
structure MoveCalls where
  fTxnBegin : Bool
  /-- The write of `nOrderPosNext` and of the entry, for the debit and for the credit. -/
  fDebitPos : Bool
  fDebit : Bool
  fCreditPos : Bool
  fCredit : Bool
  fTxnCommit : Bool
deriving DecidableEq, Repr

/-- The arguments of `move`, the adjusted time, and what becomes of the calls in it. -/
structure Move where
  strFrom : List UInt8
  strTo : List UInt8
  nAmount : ℤ
  strComment : List UInt8
  nNow : ℤ
  calls : MoveCalls
deriving DecidableEq, Repr

variable (backend : WalletBackend)

/-- A write under a key. LMDB refuses a long one, and the transaction goes on. -/
def writeSucceeds (fWritten : Bool) (key : CDBKey) : Bool :=
  fWritten && (backend = .bdb || mdbPutAccepts key)

/-- `IncOrderPosNext`, and `WriteAccountingEntry` of an entry at the position that it gives. -/
def MoveWallet.addEntry (fPos fEntry : Bool) (strAccount strOtherAccount strComment : List UInt8)
    (nCreditDebit nTime : ℤ) (w : MoveWallet) : MoveWallet :=
  let nOrderPos := w.nOrderPosNext
  let nAccEntryNum := w.nAccountingEntryNumber + 1
  let key := (strAccount, nAccEntryNum)
  let acentry : CAccountingEntry :=
    ⟨nCreditDebit, nTime, strOtherAccount, storedComment strComment nOrderPos⟩
  { nOrderPosNext := nOrderPos + 1
    nAccountingEntryNumber := nAccEntryNum
    acentries :=
      if writeSucceeds backend fEntry (acentryKey key) then w.acentries.insert key acentry
      else w.acentries
    orderposnext := if fPos then some (nOrderPos + 1) else w.orderposnext }

/-- `movecmd`: whether it returns true, and the wallet; otherwise it throws a database error. The
results of the writes are not looked at. -/
def movecmd (w : MoveWallet) (move : Move) : Bool × MoveWallet :=
  if ¬ move.calls.fTxnBegin then (false, w)
  else
    let debited := w.addEntry backend move.calls.fDebitPos move.calls.fDebit move.strFrom move.strTo
      move.strComment (-move.nAmount) move.nNow
    let credited := debited.addEntry backend move.calls.fCreditPos move.calls.fCredit move.strTo
      move.strFrom move.strComment move.nAmount move.nNow
    if move.calls.fTxnCommit then (true, credited)
    else (false, { credited with acentries := w.acentries, orderposnext := w.orderposnext })

end Phoenixcoin.Program
