import Phoenixcoin.Analysis.KeyLengths
import Phoenixcoin.Program.AccountMoves

/-!
# Moves that lose or make money

A move writes a debit and a credit in one transaction and does not look at the results of the two
writes. When both are carried out or the transaction is not committed, the entries of all accounts
still add up to zero. With LMDB, an account whose name has more than 492 bytes gets no entry, and
the other half of the pair is committed alone. A zero in the comment hides the order positions of
both entries.
-/

set_option autoImplicit false

namespace Phoenixcoin.Analysis

open Lib Program List

/-! ## Order positions -/

theorem foldl_digits (s : List UInt8) (n : ℕ) :
    s.foldl (fun (n : ℕ) c => 10 * n + (c.toNat - 48)) n =
      Nat.ofDigitChars 10 (s.map fun c => Char.ofNat c.toNat) n := by
  induction s generalizing n with
  | nil => rfl
  | cons c s ih =>
    rw [foldl_cons, ih, map_cons, Nat.ofDigitChars_cons, toNat_ofNat_byte]
    rfl

variable {s strAccount : List UInt8} {n : ℤ}

theorem takeWhile_digits (hs : ∀ c ∈ s, isDigit c) :
    s.takeWhile (fun c => 48 ≤ c && c ≤ 57) = s := by
  rw [takeWhile_eq_self_iff]
  intro c hc
  simpa [isDigit] using hs c hc

/-- Digits are read as the number that they stand for, up to the range. -/
theorem atoi64_of_isDigit (hs : ∀ c ∈ s, isDigit c) :
    atoi64 s = min (2 ^ 63 - 1) (ofNumeral s : ℤ) := by
  have hvalue : s.foldl (fun (n : ℕ) c => 10 * n + (c.toNat - 48)) 0 = ofNumeral s :=
    foldl_digits s 0
  have htake := takeWhile_digits hs
  cases s with
  | nil => rfl
  | cons d s =>
    obtain ⟨hblank, hminus, hplus⟩ := not_sign_of_isDigit (hs d mem_cons_self)
    have hdrop : (d :: s).dropWhile (fun c => c = 32 || (9 ≤ c && c ≤ 13)) = d :: s := by
      simpa [isBlank] using hblank
    unfold atoi64
    simp only [hdrop, head?_cons, Option.some.injEq, hminus, hplus, decide_false,
      Bool.or_self, Bool.false_eq_true, if_false, htake, hvalue]

/-- Digits behind a sign are the number after the sign. -/
theorem atoi64_digits (m : ℕ) :
    atoi64 (paddedNumeral 0 m) = min (2 ^ 63 - 1) (m : ℤ) ∧
      atoi64 (45 :: paddedNumeral 0 m) = max (-2 ^ 63) (-m : ℤ) := by
  have hdigits : ∀ c ∈ paddedNumeral 0 m, isDigit c := fun c => paddedNumeral_isDigit
  have hnumeral := ofNumeral_paddedNumeral 0 m
  constructor
  · rw [atoi64_of_isDigit hdigits, hnumeral]
  · have hdrop : (45 :: paddedNumeral 0 m).dropWhile (fun c => c = 32 || (9 ≤ c && c ≤ 13)) =
        45 :: paddedNumeral 0 m := dropWhile_cons_of_neg (by decide)
    have hvalue : (paddedNumeral 0 m).foldl (fun (n : ℕ) c => 10 * n + (c.toNat - 48)) 0 = m :=
      (foldl_digits _ 0).trans hnumeral
    unfold atoi64
    simp only [hdrop, head?_cons, decide_true, Bool.true_or, if_true, tail_cons,
      takeWhile_digits hdigits, hvalue]

/-- What `i64tostr` prints is read back. -/
theorem atoi64_i64tostr (hlow : -2 ^ 63 ≤ n) (hhigh : n < 2 ^ 63) : atoi64 (i64tostr n) = n := by
  unfold i64tostr printInt
  split
  · rw [(atoi64_digits n.natAbs).2]
    omega
  · rw [(atoi64_digits n.toNat).1]
    omega

theorem length_i64tostr (hlow : 0 ≤ n) (hhigh : n < 2 ^ 63) : (i64tostr n).length ≤ 19 := by
  obtain ⟨m, rfl⟩ := Int.eq_ofNat_of_zero_le hlow
  have hprint : i64tostr m = numeral m := by
    simp [i64tostr, printInt, paddedNumeral]
  rw [hprint, numeral, length_map, Nat.length_toDigits_le_iff (by decide) (by decide)]
  omega

/-- A position is read back behind a comment without a zero. -/
theorem readOrderPos_storedComment {acentry : CAccountingEntry} {strComment : List UInt8}
    {nOrderPos : ℤ} (hzero : 0 ∉ strComment) (hlow : 0 ≤ nOrderPos) (hhigh : nOrderPos < 2 ^ 63)
    (hstored : acentry.strComment = storedComment strComment nOrderPos) :
    acentry.ReadOrderPos = some nOrderPos := by
  have hfits : (mapCodec stringCodec stringCodec).Fits [(ascii "n", i64tostr nOrderPos)] := by
    have hlength := length_i64tostr hlow hhigh
    refine ⟨⟨?_, ?_⟩, rfl⟩
    · show 1 ≤ MAX_SIZE
      decide
    · intro item hitem
      rw [mem_singleton.mp hitem]
      refine ⟨?_, ?_⟩
      · show (ascii "n").length ≤ MAX_SIZE
        decide
      · show (i64tostr nOrderPos).length ≤ MAX_SIZE
        unfold MAX_SIZE
        omega
  have hread := Codec.eval_write_append _ hfits []
  rw [append_nil] at hread
  have hdrop : (storedComment strComment nOrderPos).dropWhile (· ≠ 0) =
      0 :: (mapCodec stringCodec stringCodec).write [(ascii "n", i64tostr nOrderPos)] := by
    rw [storedComment, if_neg (by omega), dropWhile_append_of_pos]
    · simp
    · intro c hc
      simpa using fun h : c = 0 => hzero (h ▸ hc)
  rw [CAccountingEntry.ReadOrderPos, hstored, hdrop]
  simp only [hread, Option.map_some, Option.some.injEq]
  have hfind : mapValueFind [(ascii "n", i64tostr nOrderPos)] "n" = some (i64tostr nOrderPos) := by
    have hn : ascii "n" = "n".toUTF8.toList := by with_unfolding_all decide
    simp [mapValueFind, hn]
  rw [hfind, Option.map_some]
  exact atoi64_i64tostr (by omega) hhigh

/-- A zero in the comment hides the position. -/
example (acentry : CAccountingEntry) (h : acentry.strComment = storedComment [0] 5) :
    acentry.ReadOrderPos = some (-1) := by
  rw [CAccountingEntry.ReadOrderPos, h]
  decide

/-! ## One move -/

/-- The entries of a pair with the positions that are read back from them. -/
structure PairStored (w : MoveWallet) (move : Move) (acentries : Table (List UInt8 × ℕ)
    CAccountingEntry) (nOrderPosNext : ℤ) (debit credit : CAccountingEntry)
    (nDebitPos nCreditPos : ℤ) : Prop where
  debit_stored : acentries.lookup (move.strFrom, w.nAccountingEntryNumber + 1) = some debit
  credit_stored : acentries.lookup (move.strTo, w.nAccountingEntryNumber + 2) = some credit
  debit_amount : debit.nCreditDebit = -move.nAmount
  credit_amount : credit.nCreditDebit = move.nAmount
  debit_other : debit.strOtherAccount = move.strTo
  credit_other : credit.strOtherAccount = move.strFrom
  debit_pos : debit.ReadOrderPos = some nDebitPos
  credit_pos : credit.ReadOrderPos = some nCreditPos
  distinct : nDebitPos ≠ nCreditPos
  debit_below : nDebitPos < nOrderPosNext
  credit_below : nCreditPos < nOrderPosNext

/-- A move that returns true has both entries in the database, and one that fails has none. -/
def MoveOk (w : MoveWallet) (move : Move) (result : Bool × MoveWallet) : Prop :=
  if result.1 then
    ∃ debit credit nDebitPos nCreditPos, PairStored w move result.2.acentries
      result.2.nOrderPosNext debit credit nDebitPos nCreditPos
  else
    result.2.acentries.lookup (move.strFrom, w.nAccountingEntryNumber + 1) = none ∧
      result.2.acentries.lookup (move.strTo, w.nAccountingEntryNumber + 2) = none

/-- If the transaction is committed, both entries are written, under positions of an `int64` and
with a comment that has no zero. -/
def Completes (backend : WalletBackend) (w : MoveWallet) (move : Move) : Prop :=
  move.calls.fTxnBegin → move.calls.fTxnCommit →
    move.calls.fDebit ∧ move.calls.fCredit ∧
    (backend = .lmdb → move.strFrom.length ≤ 492 ∧ move.strTo.length ≤ 492) ∧
    0 ∉ move.strComment ∧ 0 ≤ w.nOrderPosNext ∧ w.nOrderPosNext + 1 < 2 ^ 63

def Numbered (w : MoveWallet) : Prop :=
  ∀ key ∈ w.acentries, key.2 ≤ w.nAccountingEntryNumber

def sumOfEntries (w : MoveWallet) : ℤ := Table.total CAccountingEntry.nCreditDebit w.acentries

theorem writeSucceeds_acentry {backend : WalletBackend} (n : ℕ)
    (h : backend = .lmdb → strAccount.length ≤ 492) :
    writeSucceeds backend true (acentryKey (strAccount, n)) := by
  cases backend with
  | bdb => simp [writeSucceeds]
  | lmdb =>
    have hkey := (canPut_iff exampleCrypto false (.acentry strAccount n)).mpr (h rfl)
    have hbytes : (WalletRecordKey.acentry strAccount n).bytes exampleCrypto false =
        acentryKey (strAccount, n) := rfl
    rw [hbytes] at hkey
    simp [writeSucceeds, hkey]

theorem lookup_fresh {w : MoveWallet} (h : Numbered w) {n : ℕ} (hn : w.nAccountingEntryNumber < n) :
    w.acentries.lookup (strAccount, n) = none := by
  apply Finmap.lookup_eq_none.mpr
  intro hmem
  exact absurd (h _ hmem) (Nat.not_le.mpr hn)

section AddEntry

variable (backend : WalletBackend) {w : MoveWallet} (fPos fEntry : Bool)
  (strAccount strOtherAccount strComment : List UInt8) (nCreditDebit nTime : ℤ)

theorem numbered_addEntry (h : Numbered w) :
    Numbered (w.addEntry backend fPos fEntry strAccount strOtherAccount strComment nCreditDebit
      nTime) := by
  intro key hkey
  simp only [MoveWallet.addEntry] at hkey ⊢
  split at hkey
  · rcases Finmap.mem_insert.mp hkey with rfl | hold
    · exact le_rfl
    · exact (h key hold).trans (Nat.le_succ _)
  · exact (h key hkey).trans (Nat.le_succ _)

theorem addEntry_written (h : Numbered w) (hwrite : writeSucceeds backend fEntry
      (acentryKey (strAccount, w.nAccountingEntryNumber + 1))) :
    let w' := w.addEntry backend fPos fEntry strAccount strOtherAccount strComment
      nCreditDebit nTime
    w'.acentries = w.acentries.insert (strAccount, w.nAccountingEntryNumber + 1)
        ⟨nCreditDebit, nTime, strOtherAccount, storedComment strComment w.nOrderPosNext⟩ ∧
      sumOfEntries w' = sumOfEntries w + nCreditDebit := by
  have hentries : (w.addEntry backend fPos fEntry strAccount strOtherAccount strComment nCreditDebit
      nTime).acentries = w.acentries.insert (strAccount, w.nAccountingEntryNumber + 1)
        ⟨nCreditDebit, nTime, strOtherAccount, storedComment strComment w.nOrderPosNext⟩ := by
    simp [MoveWallet.addEntry, hwrite]
  refine ⟨hentries, ?_⟩
  rw [sumOfEntries, hentries, Table.total_insert, lookup_fresh h (Nat.lt_succ_self _)]
  simp [sumOfEntries]

end AddEntry

/-! ## Moves -/

variable {backend : WalletBackend} {w : MoveWallet} {move : Move}

theorem numbered_movecmd (h : Numbered w) (move : Move) : Numbered (movecmd backend w move).2 := by
  unfold movecmd
  split
  · exact h
  · have hcredited := numbered_addEntry backend move.calls.fCreditPos
      move.calls.fCredit move.strTo move.strFrom move.strComment move.nAmount move.nNow
      (numbered_addEntry backend move.calls.fDebitPos move.calls.fDebit move.strFrom
        move.strTo move.strComment (-move.nAmount) move.nNow h)
    split
    · exact hcredited
    · exact fun key hkey => (h key hkey).trans (Nat.le_add_right _ 2)

theorem movecmd_completes (hw : Numbered w) (hmove : Completes backend w move) :
    MoveOk w move (movecmd backend w move) ∧
      sumOfEntries (movecmd backend w move).2 = sumOfEntries w := by
  unfold movecmd
  by_cases hbegin : move.calls.fTxnBegin
  swap
  · rw [if_pos hbegin]
    exact ⟨⟨lookup_fresh hw (by omega), lookup_fresh hw (by omega)⟩, rfl⟩
  rw [if_neg (not_not.mpr hbegin)]
  by_cases hcommit : move.calls.fTxnCommit
  swap
  · rw [if_neg hcommit]
    exact ⟨⟨lookup_fresh hw (by omega), lookup_fresh hw (by omega)⟩, rfl⟩
  rw [if_pos hcommit]
  obtain ⟨hdebit, hcredit, hnames, hzero, hlow, hhigh⟩ := hmove hbegin hcommit
  generalize hdebited : w.addEntry backend move.calls.fDebitPos move.calls.fDebit move.strFrom
    move.strTo move.strComment (-move.nAmount) move.nNow = debited
  have hnumber : debited.nAccountingEntryNumber = w.nAccountingEntryNumber + 1 := by
    rw [← hdebited]
    rfl
  have hpos : debited.nOrderPosNext = w.nOrderPosNext + 1 := by
    rw [← hdebited]
    rfl
  obtain ⟨hfirst, hfirstSum⟩ := addEntry_written backend move.calls.fDebitPos
    move.calls.fDebit move.strFrom move.strTo move.strComment (-move.nAmount) move.nNow hw
    (by rw [hdebit]; exact writeSucceeds_acentry _ fun h => (hnames h).1)
  rw [hdebited] at hfirst hfirstSum
  have hdebitedNumbered : Numbered debited := hdebited ▸ numbered_addEntry _ _ _ _ _ _ _ _ hw
  obtain ⟨hsecond, hsecondSum⟩ := addEntry_written backend move.calls.fCreditPos
    move.calls.fCredit move.strTo move.strFrom move.strComment move.nAmount move.nNow
    hdebitedNumbered (by rw [hcredit]; exact writeSucceeds_acentry _ fun h => (hnames h).2)
  refine ⟨?_, by rw [hsecondSum]; omega⟩
  rw [hnumber, hpos] at hsecond
  refine ⟨⟨-move.nAmount, move.nNow, move.strTo, storedComment move.strComment w.nOrderPosNext⟩,
    ⟨move.nAmount, move.nNow, move.strFrom, storedComment move.strComment (w.nOrderPosNext + 1)⟩,
    w.nOrderPosNext, w.nOrderPosNext + 1, ?_, ?_, rfl, rfl, rfl, rfl,
    readOrderPos_storedComment hzero hlow (by omega) rfl,
    readOrderPos_storedComment hzero (by omega) hhigh rfl, by omega, ?_, ?_⟩
  · rw [hsecond, Finmap.lookup_insert_of_ne _ (by simp), hfirst, Finmap.lookup_insert]
  · rw [hsecond, Finmap.lookup_insert]
  · show w.nOrderPosNext < debited.nOrderPosNext + 1
    omega
  · show w.nOrderPosNext + 1 < debited.nOrderPosNext + 1
    omega

/-- In a run whose moves complete, from entries that add up to zero, every move keeps its pair
together and the entries always add up to zero. -/
theorem moves_conserve (hw : Numbered w) (hsum : sumOfEntries w = 0) (moves : List Move)
    (hcompletes : ∀ before move after, moves = before ++ move :: after →
      Completes backend (before.foldl (fun w move => (movecmd backend w move).2) w) move) :
    (∀ before move after, moves = before ++ move :: after →
      let w' := before.foldl (fun w move => (movecmd backend w move).2) w
      MoveOk w' move (movecmd backend w' move)) ∧
    ∀ before after, moves = before ++ after →
      sumOfEntries (before.foldl (fun w move => (movecmd backend w move).2) w) = 0 := by
  have hstate : ∀ before after, moves = before ++ after →
      Numbered (before.foldl (fun w move => (movecmd backend w move).2) w) ∧
        sumOfEntries (before.foldl (fun w move => (movecmd backend w move).2) w) = 0 := by
    intro before
    induction before using List.reverseRecOn with
    | nil => exact fun _ _ => ⟨hw, hsum⟩
    | append_singleton before move ih =>
      intro after hmoves
      rw [append_assoc] at hmoves
      obtain ⟨hnumbered, hzero⟩ := ih _ hmoves
      have hmove := hcompletes before move after (by simpa using hmoves)
      rw [foldl_append, foldl_cons]
      exact ⟨numbered_movecmd hnumbered move, (movecmd_completes hnumbered hmove).2.trans hzero⟩
  refine ⟨fun before move after hmoves => ?_, fun before after hmoves => (hstate _ _ hmoves).2⟩
  exact (movecmd_completes (hstate _ _ hmoves).1 (hcompletes _ _ _ hmoves)).1

/-! ## A long name -/

/-- A wallet without accounting entries. -/
def newMoveWallet : MoveWallet := ⟨0, 0, ∅, none⟩

theorem numbered_newMoveWallet : Numbered newMoveWallet :=
  fun _ hkey => absurd hkey Finmap.notMem_empty

def callsSucceed : MoveCalls := ⟨true, true, true, true, true, true⟩

/-- One coin from `"a"` to `"b"`. -/
def shortMove : Move := ⟨ascii "a", ascii "b", 100000000, ascii "rent", 1700000000, callsSucceed⟩

theorem moves_conserve_short :
    (∀ before move after, [shortMove] = before ++ move :: after →
      let w' := before.foldl (fun w move => (movecmd .lmdb w move).2) newMoveWallet
      MoveOk w' move (movecmd .lmdb w' move)) ∧
    ∀ before after, [shortMove] = before ++ after →
      sumOfEntries (before.foldl (fun w move => (movecmd .lmdb w move).2) newMoveWallet) = 0 := by
  refine moves_conserve numbered_newMoveWallet
    (by simp [sumOfEntries, newMoveWallet]) [shortMove] ?_
  intro before move after hmoves
  obtain ⟨rfl, rfl, -⟩ : before = [] ∧ move = shortMove ∧ after = [] := by
    cases before <;> simp_all
  exact fun _ _ => ⟨rfl, rfl, fun _ => by decide, by decide, by decide, by decide⟩

/-- One coin from the default account to an account with a name of 600 letters. -/
def longMove : Move := ⟨[], List.replicate 600 97, 100000000, [], 1700000000, callsSucceed⟩

/-- The debit is committed without the credit. -/
theorem longMove_loses :
    (movecmd .lmdb newMoveWallet longMove).1 = true ∧
      ¬ MoveOk newMoveWallet longMove (movecmd .lmdb newMoveWallet longMove) ∧
      sumOfEntries (movecmd .lmdb newMoveWallet longMove).2 = -100000000 := by
  obtain ⟨hfirst, hfirstSum⟩ := addEntry_written .lmdb true true [] longMove.strTo []
    (-100000000) 1700000000 numbered_newMoveWallet (writeSucceeds_acentry 1 fun _ => by decide)
  have hrefused : writeSucceeds .lmdb true (acentryKey (longMove.strTo, 2)) = false := by
    have hlong : ¬ KeyFits (.acentry longMove.strTo 2) := by
      show ¬ (List.replicate 600 97).length ≤ 492
      rw [length_replicate]
      decide
    rw [← canPut_iff exampleCrypto false, Bool.not_eq_true] at hlong
    have hkey : mdbPutAccepts (acentryKey (longMove.strTo, 2)) = false := hlong
    simp [writeSucceeds, hkey]
  have hmove : (movecmd .lmdb newMoveWallet longMove).1 = true ∧
      (movecmd .lmdb newMoveWallet longMove).2.acentries =
        (newMoveWallet.addEntry .lmdb true true [] longMove.strTo [] (-100000000)
          1700000000).acentries := by
    refine ⟨rfl, ?_⟩
    show (if writeSucceeds .lmdb true (acentryKey (longMove.strTo, 2)) then _ else _) = _
    rw [hrefused]
    rfl
  refine ⟨hmove.1, ?_, ?_⟩
  · rintro ⟨debit, credit, nDebitPos, nCreditPos, hpair⟩
    have hcredit := hpair.credit_stored
    rw [hmove.2, hfirst] at hcredit
    simp [newMoveWallet] at hcredit
  · rw [sumOfEntries, hmove.2]
    exact hfirstSum

end Phoenixcoin.Analysis
