import Phoenixcoin.Lib.KeyRange
import Phoenixcoin.Program.Accounts
import Phoenixcoin.Program.KeyStore

/-!
# The balances of the accounts

The three tallies of `rpcwallet.cpp` post the same amounts for a transaction, but `listaccounts`
does not leave out the transactions that are not final. What those come to decides whether the
balances agree.
-/

set_option autoImplicit false

namespace Phoenixcoin.Analysis

open Lib Program List Tally AccountWallet

/-! ## Accounting entries -/

def acentryPrefix (strAccount : List UInt8) : List UInt8 :=
  stringCodec.write "acentry".toUTF8.toList ++ stringCodec.write strAccount

variable (key : List UInt8 × ℕ)

theorem acentryKey_eq :
    acentryKey key = acentryPrefix key.1 ++ toLittleEndian 8 key.2 := by
  simp [acentryKey, acentryPrefix]

theorem acentryKey_zero (strAccount : List UInt8) :
    acentryKey (strAccount, 0) = acentryPrefix strAccount ++ replicate 8 0 := by
  have hzero : toLittleEndian 8 0 = replicate 8 0 := by decide
  rw [acentryKey_eq, hzero]

theorem acentryKey_zero_le : acentryKey (key.1, 0) ≤ acentryKey key := by
  rw [acentryKey_zero, acentryKey_eq]
  apply append_le_append_left
  apply replicate_zero_le
  rw [length_toLittleEndian]

theorem acentryKey_empty_le : acentryKey ([], 0) ≤ acentryKey key := by
  have hempty : acentryKey ([], 0) =
      stringCodec.write "acentry".toUTF8.toList ++ List.replicate 9 0 := by
    with_unfolding_all decide
  have hlength : 9 ≤ (stringCodec.write key.1 ++ toLittleEndian 8 key.2).length := by
    have hcount : 1 ≤ (WriteCompactSize key.1.length).length := by
      rw [length_WriteCompactSize]
      unfold getSizeOfCompactSize
      split_ifs <;> omega
    have hwrite : stringCodec.write key.1 = WriteCompactSize key.1.length ++ key.1 := rfl
    rw [hwrite]
    simp only [length_append, length_toLittleEndian]
    omega
  rw [hempty]
  apply append_le_append_left
  exact replicate_zero_le hlength

variable {strAccount : List UInt8}

theorem account_eq_of_prefix {strAccount' key : List UInt8} (hfits : strAccount.length ≤ MAX_SIZE)
    (hfits' : strAccount'.length ≤ MAX_SIZE) (h : acentryPrefix strAccount <+: key)
    (h' : acentryPrefix strAccount' <+: key) :
    strAccount = strAccount' := by
  obtain ⟨rest, hrest⟩ := h
  obtain ⟨rest', hrest'⟩ := h'
  rw [← hrest', acentryPrefix, acentryPrefix, append_assoc, append_assoc] at hrest
  have htail := append_cancel_left hrest
  have hread := stringCodec.eval_write_append (x := strAccount) hfits rest
  rw [htail, stringCodec.eval_write_append (x := strAccount') hfits' rest'] at hread
  cases hread
  rfl

variable (acentries : AccountingRecords)

theorem ListAccountCreditDebit_eq (strAccount : List UInt8) :
    acentries.ListAccountCreditDebit strAccount =
      (acentries.ListEntries strAccount).map fun r => (r.1.1, r.2) := rfl

theorem ListEntries_all : acentries.ListEntries strAllAccounts = acentries.records := by
  unfold AccountingRecords.ListEntries
  simp only [decide_true, Bool.true_or, if_true]
  rw [takeWhile_dropWhile_eq_filter acentries.sorted (fun r _ _ => acentryKey_empty_le r.1)
    fun _ _ _ _ _ _ _ => rfl]
  simp

/-- The scan meets exactly the entries of the account. -/
theorem ListEntries_of_ne (h : strAccount ≠ strAllAccounts) :
    acentries.ListEntries strAccount = acentries.records.filter fun r => r.1.1 = strAccount := by
  unfold AccountingRecords.ListEntries
  simp only [h, decide_false, Bool.false_or, Bool.false_eq_true, if_false]
  rw [takeWhile_dropWhile_eq_filter acentries.sorted]
  · intro r _ hr
    have hr : r.1.1 = strAccount := by simpa using hr
    rw [← hr]
    exact acentryKey_zero_le r.1
  · intro r hmem r' hmem' hr' hlow hlt
    have hr' : r'.1.1 = strAccount := by simpa using hr'
    rw [acentryKey_zero] at hlow
    have hhigh : acentryKey r.1 ≤ acentryPrefix strAccount ++ toLittleEndian 8 r'.1.2 := by
      rw [← hr', ← acentryKey_eq]
      exact List.le_of_lt hlt
    have hprefix := isPrefix_of_between hlow hhigh
    have hown : acentryPrefix r.1.1 <+: acentryKey r.1 := by
      rw [acentryKey_eq]
      exact prefix_append _ _
    have hfits : strAccount.length ≤ MAX_SIZE := by
      rw [← hr']
      exact acentries.fits r' hmem'
    simpa using account_eq_of_prefix (acentries.fits r hmem) hfits hown hprefix

theorem ListAccountCreditDebit_all :
    acentries.ListAccountCreditDebit strAllAccounts =
      acentries.records.map fun r => (r.1.1, r.2) := by
  rw [ListAccountCreditDebit_eq, ListEntries_all]

theorem ListAccountCreditDebit_of_ne (h : strAccount ≠ strAllAccounts) :
    acentries.ListAccountCreditDebit strAccount =
      (acentries.records.filter fun r => r.1.1 = strAccount).map fun r => (r.1.1, r.2) := by
  rw [ListAccountCreditDebit_eq, ListEntries_of_ne acentries h]

/-! ## What a transaction comes to -/

section Movements

variable (E : AccountEnv) (w : AccountWallet) (nMinDepth : ℤ) (wtx : AccountTx)

def ownOutputs : List CTxOut :=
  (w.shownOutputs E wtx ((w.GetDebit E wtx).getD 0)).filter fun txout =>
    E.isMine txout.scriptPubKey

def received (strAccount : List UInt8) : ℤ :=
  (((ownOutputs E w wtx).filter fun txout =>
    w.accountOf (ExtractDestination E.digests txout.scriptPubKey) = strAccount).map
      CTxOut.nValue).sum

/-- What the wallet spent in a transaction and did not get back as change. -/
def spent : ℤ :=
  let nDebit := (w.GetDebit E wtx).getD 0
  if 0 < nDebit then
    nDebit - (((wtx.vout.zipIdx.filter fun output => w.IsChange E wtx output.2).map
      fun output => output.1.nValue).sum)
  else 0

def movement (strAccount : List UInt8) : ℤ :=
  (if nMinDepth ≤ E.GetDepthInMainChain wtx then received E w wtx strAccount else 0) -
    if wtx.strFromAccount = strAccount then spent E w wtx else 0

variable {A : Type} {amounts : Amounts} {accounts : Table (List UInt8) ℤ} {l : List AccountTx}

theorem sum_map_neg (l : List (A × ℤ)) : (l.map fun s => -s.2).sum = -(l.map Prod.snd).sum := by
  induction l with
  | nil => rfl
  | cons s l ih =>
    simp only [map_cons, sum_cons, ih]
    omega

/-- The amounts that `listaccounts` posts for a transaction. -/
def postings (amounts : Amounts) : List (List UInt8 × ℤ) :=
  (amounts.strSentAccount, -amounts.nFee) ::
    (amounts.listSent.map fun s => (amounts.strSentAccount, -s.2)) ++
      if nMinDepth ≤ E.GetDepthInMainChain wtx then
        amounts.listReceived.map fun r => (w.accountOf r.1, r.2)
      else []

variable {E w nMinDepth wtx}

theorem tallyAccounts_eq (h : w.GetAmounts E wtx = some amounts)
    (mapAccountBalances : Table (List UInt8) ℤ) :
    w.tallyAccounts E nMinDepth mapAccountBalances wtx =
      some (postAll (postings E w nMinDepth wtx amounts) mapAccountBalances) := by
  rw [tallyAccounts, postings, h, postAll_append]
  split_ifs <;> rfl

theorem share_postings_eq (amounts : Amounts) (strAccount : List UInt8) :
    share (postings E w nMinDepth wtx amounts) strAccount =
      (if nMinDepth ≤ E.GetDepthInMainChain wtx then
        share (amounts.listReceived.map fun r => (w.accountOf r.1, r.2)) strAccount
      else 0) -
      if amounts.strSentAccount = strAccount then
        (amounts.listSent.map Prod.snd).sum + amounts.nFee
      else 0 := by
  rw [postings, share_append, share_cons, share_map, sum_map_neg]
  by_cases hdepth : nMinDepth ≤ E.GetDepthInMainChain wtx
  · by_cases hsender : amounts.strSentAccount = strAccount
    · simp only [hdepth, hsender, if_true]
      omega
    · simp [hdepth, hsender]
  · by_cases hsender : amounts.strSentAccount = strAccount
    · simp only [hdepth, hsender, if_true, if_false, share_nil]
      omega
    · simp [hdepth, hsender]

section

variable (h : w.GetAmounts E wtx = some amounts)
include h

theorem GetAccountAmounts_eq (strAccount : List UInt8) : w.GetAccountAmounts E strAccount wtx = some
      (share (amounts.listReceived.map fun r => (w.accountOf r.1, r.2)) strAccount,
        if strAccount = amounts.strSentAccount then
          ((amounts.listSent.map Prod.snd).sum, amounts.nFee)
        else (0, 0)) := by
  rw [GetAccountAmounts, h]
  refine congrArg some (Prod.ext ?_ rfl)
  rw [share, filter_map, map_map]
  refine congrArg sum (congrArg (map Prod.snd) (filter_congr ?_))
  intro r _
  simp only [Function.comp_apply, accountOf]
  cases w.mapAddressBook.lookup r.1 with
  | none => simp [eq_comm]
  | some name => rfl

/-- A round of `GetAccountBalance` adds the share of the account. -/
theorem tallyAccount_eq (strAccount : List UInt8) (nBalance : ℤ) :
    w.tallyAccount E strAccount nMinDepth nBalance wtx = some (nBalance +
      if E.IsFinal wtx then share (postings E w nMinDepth wtx amounts) strAccount else 0) := by
  unfold tallyAccount
  by_cases hfinal : E.IsFinal wtx = true
  · rw [GetAccountAmounts_eq h, share_postings_eq]
    split_ifs <;> simp_all <;> omega
  · simp [hfinal]

/-- A round of `getbalance "*"` adds all amounts. -/
theorem tallyAll_eq (nBalance : ℤ) :
    w.tallyAll E nMinDepth nBalance wtx = some (nBalance +
      if E.IsFinal wtx then ((postings E w nMinDepth wtx amounts).map Prod.snd).sum else 0) := by
  unfold tallyAll postings
  by_cases hfinal : E.IsFinal wtx = true
  · rw [h]
    simp only [hfinal, not_true_eq_false, if_false, if_true, Option.bind_eq_bind,
      Option.bind_some, Option.some.injEq, map_append, map_cons, map_map,
      sum_append, sum_cons, Function.comp_def, sum_map_neg]
    split_ifs
    · have hreceived : (Prod.snd ∘ fun r : Option CTxDestination × ℤ => (w.accountOf r.1, r.2)) =
          Prod.snd := rfl
      rw [map_map, hreceived]
      omega
    · simp only [map_nil, sum_nil]
      omega
  · simp [hfinal]

end

/-! ## The amounts in terms of the transaction -/

theorem sum_filter_add_sum_filter_not (p : A → Bool) (f : A → ℤ) (l : List A) :
    ((l.filter p).map f).sum + ((l.filter fun a => ! p a).map f).sum = (l.map f).sum := by
  induction l with
  | nil => rfl
  | cons a l ih =>
    cases hp : p a <;> simp only [filter_cons, hp, Bool.not_true, Bool.not_false, if_true,
      Bool.false_eq_true, if_false, map_cons, sum_cons] <;> omega

section

variable (h : w.GetAmounts E wtx = some amounts)
include h

/-- What `GetAmounts` returns, in terms of the debit of the transaction. -/
theorem GetAmounts_eq_some :
    ∃ nDebit, w.GetDebit E wtx = some nDebit ∧
      feeOf wtx nDebit = some amounts.nFee ∧
      amounts.strSentAccount = wtx.strFromAccount ∧
      amounts.listReceived = (ownOutputs E w wtx).map (fun txout =>
        (ExtractDestination E.digests txout.scriptPubKey, txout.nValue)) ∧
      amounts.listSent = if 0 < nDebit then
        (w.shownOutputs E wtx nDebit).map fun txout =>
          (ExtractDestination E.digests txout.scriptPubKey, txout.nValue)
        else [] := by
  obtain ⟨nDebit, hdebit, h⟩ := Option.bind_eq_some_iff.mp h
  obtain ⟨nFee, hfee, h⟩ := Option.bind_eq_some_iff.mp h
  cases h
  refine ⟨nDebit, hdebit, hfee, rfl, ?_, rfl⟩
  rw [ownOutputs, hdebit, Option.getD_some]

theorem sent_add_fee : (amounts.listSent.map Prod.snd).sum + amounts.nFee = spent E w wtx := by
  obtain ⟨nDebit, hdebit, hfee, _, _, hsent⟩ := GetAmounts_eq_some h
  unfold feeOf at hfee
  rw [spent, hsent, hdebit, Option.getD_some]
  by_cases hpos : 0 < nDebit
  · rw [if_pos hpos] at hfee ⊢
    obtain ⟨nValueOut, hvalue, hfee⟩ := Option.map_eq_some_iff.mp hfee
    have hall : (wtx.vout.map CTxOut.nValue).sum =
        (wtx.vout.zipIdx.map fun output => output.1.nValue).sum := by
      rw [← zipIdx_map_fst 0 wtx.vout, map_map]
      simp [Function.comp_def]
    have hsplit := sum_filter_add_sum_filter_not
      (fun output : CTxOut × ℕ => w.IsChange E wtx output.2)
      (fun output => output.1.nValue) wtx.vout.zipIdx
    rw [CTransaction.getValueOut_eq_some hvalue, hall] at hfee
    have hshown : ((w.shownOutputs E wtx nDebit).map CTxOut.nValue).sum =
        ((wtx.vout.zipIdx.filter fun output => ! w.IsChange E wtx output.2).map
          fun output => output.1.nValue).sum := by
      unfold shownOutputs
      simp [hpos, Function.comp_def]
    rw [map_map]
    simp only [Function.comp_def]
    rw [hshown]
    omega
  · rw [if_neg hpos] at hfee ⊢
    simp [hpos, ← Option.some.inj hfee]

theorem share_postings (strAccount : List UInt8) :
    share (postings E w nMinDepth wtx amounts) strAccount =
      movement E w nMinDepth wtx strAccount := by
  obtain ⟨_, _, _, hsender, hreceived, _⟩ := GetAmounts_eq_some h
  have hshare : share (amounts.listReceived.map fun r => (w.accountOf r.1, r.2)) strAccount =
      received E w wtx strAccount := by
    rw [share, received, hreceived, map_map, filter_map, map_map]
    rfl
  rw [share_postings_eq, hshare, hsender, sent_add_fee h, movement]

end

/-! ## Whole tallies -/

variable (E w nMinDepth) in
/-- The amounts that `listaccounts` posts for a transaction of the wallet. -/
def postingsOf (wtx : AccountTx) : List (List UInt8 × ℤ) :=
  (w.GetAmounts E wtx).elim [] (postings E w nMinDepth wtx)

/-- `listaccounts` posts the amounts of all transactions. -/
theorem tallyAccounts_run {accounts' : Table (List UInt8) ℤ}
    (h : l.foldlM (w.tallyAccounts E nMinDepth) accounts = some accounts') :
    (∀ wtx ∈ l, (w.GetAmounts E wtx).isSome) ∧
      accounts' = postAll (l.flatMap (postingsOf E w nMinDepth)) accounts := by
  induction l generalizing accounts with
  | nil =>
    cases h
    exact ⟨by simp, rfl⟩
  | cons wtx l ih =>
    obtain ⟨next, hstep, hrest⟩ := foldlM_cons_eq_some.mp h
    cases hamounts : w.GetAmounts E wtx with
    | none => simp [tallyAccounts, hamounts] at hstep
    | some amounts =>
      rw [tallyAccounts_eq hamounts] at hstep
      cases hstep
      obtain ⟨hsome, htally⟩ := ih hrest
      constructor
      · intro wtx' hmem
        rcases mem_cons.mp hmem with rfl | hmem
        · simp [hamounts]
        · exact hsome wtx' hmem
      · rw [htally, flatMap_cons, postAll_append]
        simp [postingsOf, hamounts]

theorem foldlM_add {f : ℤ → AccountTx → Option ℤ} {g : AccountTx → ℤ}
    (hstep : ∀ wtx ∈ l, ∀ nBalance, f nBalance wtx = some (nBalance + g wtx)) (nBalance : ℤ) :
    l.foldlM f nBalance = some (nBalance + (l.map g).sum) := by
  induction l generalizing nBalance with
  | nil => simp
  | cons wtx l ih =>
    rw [foldlM_cons_eq_some]
    refine ⟨nBalance + g wtx, hstep wtx mem_cons_self nBalance, ?_⟩
    rw [ih fun wtx hmem => hstep wtx (mem_cons_of_mem _ hmem), map_cons, sum_cons, add_assoc]

/-- `GetAccountBalance` adds what the final transactions bring the account. -/
theorem tallyAccount_run (h : ∀ wtx ∈ l, (w.GetAmounts E wtx).isSome) (strAccount : List UInt8)
    (nBalance : ℤ) :
    l.foldlM (w.tallyAccount E strAccount nMinDepth) nBalance = some (nBalance +
      share ((l.filter E.IsFinal).flatMap (postingsOf E w nMinDepth)) strAccount) := by
  have hsum : share ((l.filter E.IsFinal).flatMap (postingsOf E w nMinDepth)) strAccount =
      (l.map fun wtx => if E.IsFinal wtx then
        share (postingsOf E w nMinDepth wtx) strAccount else 0).sum := by
    rw [share_flatMap]
    induction l with
    | nil => rfl
    | cons wtx l ih =>
      have ih := ih fun wtx hmem => h wtx (mem_cons_of_mem _ hmem)
      cases hfinal : E.IsFinal wtx <;> simp [hfinal, ih]
  rw [hsum]
  apply foldlM_add
  intro wtx hmem nBalance
  obtain ⟨amounts, hamounts⟩ := Option.isSome_iff_exists.mp (h wtx hmem)
  rw [tallyAccount_eq hamounts]
  simp [postingsOf, hamounts]

/-- `getbalance "*"` adds all amounts of the final transactions. -/
theorem tallyAll_run (h : ∀ wtx ∈ l, (w.GetAmounts E wtx).isSome) (nBalance : ℤ) :
    l.foldlM (w.tallyAll E nMinDepth) nBalance = some (nBalance +
      (((l.filter E.IsFinal).flatMap (postingsOf E w nMinDepth)).map Prod.snd).sum) := by
  have hsum : (((l.filter E.IsFinal).flatMap (postingsOf E w nMinDepth)).map Prod.snd).sum =
      (l.map fun wtx => if E.IsFinal wtx then
        ((postingsOf E w nMinDepth wtx).map Prod.snd).sum else 0).sum := by
    induction l with
    | nil => rfl
    | cons wtx l ih =>
      have ih := ih fun wtx hmem => h wtx (mem_cons_of_mem _ hmem)
      cases hfinal : E.IsFinal wtx <;> simp [hfinal, ih]
  rw [hsum]
  apply foldlM_add
  intro wtx hmem nBalance
  obtain ⟨amounts, hamounts⟩ := Option.isSome_iff_exists.mp (h wtx hmem)
  rw [tallyAll_eq hamounts]
  simp [postingsOf, hamounts]

/-! ## The accounts of a wallet -/

theorem sum_flatMap (f : A → List (List UInt8 × ℤ)) (l : List A) :
    ((l.flatMap f).map Prod.snd).sum = (l.map fun a => ((f a).map Prod.snd).sum).sum := by
  induction l with
  | nil => rfl
  | cons a l ih => simp [ih]

variable (E w nMinDepth) in
def postedBy (fFinal : Bool) : List (List UInt8 × ℤ) :=
  (w.transactions.filter fun wtx => E.IsFinal wtx == fFinal).flatMap (postingsOf E w nMinDepth)

theorem share_transactions (strAccount : List UInt8) :
    share (w.transactions.flatMap (postingsOf E w nMinDepth)) strAccount =
      share (postedBy E w nMinDepth true) strAccount +
        share (postedBy E w nMinDepth false) strAccount := by
  unfold postedBy
  rw [share_flatMap, share_flatMap, share_flatMap,
    ← sum_filter_add_sum_filter_not E.IsFinal]
  simp

theorem sum_transactions :
    ((w.transactions.flatMap (postingsOf E w nMinDepth)).map Prod.snd).sum =
      ((postedBy E w nMinDepth true).map Prod.snd).sum +
        ((postedBy E w nMinDepth false).map Prod.snd).sum := by
  unfold postedBy
  rw [sum_flatMap, sum_flatMap, sum_flatMap, ← sum_filter_add_sum_filter_not E.IsFinal]
  simp

theorem lookup_ownAccounts (entries : List (Sigma fun _ : Option CTxDestination => List UInt8))
    (accounts : Table (List UInt8) ℤ) (strAccount : List UInt8) :
    (((entries.foldl (fun mapAccountBalances entry =>
        if E.isMine (SetDestination entry.1) then mapAccountBalances.insert entry.2 0
        else mapAccountBalances) accounts).lookup strAccount).isSome ↔
      (accounts.lookup strAccount).isSome ∨
        ∃ entry ∈ entries, E.isMine (SetDestination entry.1) = true ∧ entry.2 = strAccount) ∧
    ((accounts.lookup strAccount).getD 0 = 0 → ((entries.foldl (fun mapAccountBalances entry =>
        if E.isMine (SetDestination entry.1) then mapAccountBalances.insert entry.2 0
        else mapAccountBalances) accounts).lookup strAccount).getD 0 = 0) := by
  induction entries generalizing accounts with
  | nil => simp
  | cons entry entries ih =>
    rw [foldl_cons]
    by_cases hmine : E.isMine (SetDestination entry.1) = true
    · obtain ⟨hsome, hzero⟩ := ih (accounts.insert entry.2 0)
      rw [if_pos hmine, hsome]
      rw [Table.lookup_insert_ite] at hzero ⊢
      by_cases hname : strAccount = entry.2
      · rw [if_pos hname] at hzero ⊢
        exact ⟨by simp [hmine, hname], fun _ => hzero rfl⟩
      · rw [if_neg hname] at hzero ⊢
        exact ⟨by simp [Ne.symm hname], hzero⟩
    · rw [if_neg hmine]
      refine ⟨?_, (ih accounts).2⟩
      rw [(ih accounts).1]
      simp [hmine]

theorem isSome_lookup_ownAccounts (strAccount : List UInt8) :
    ((w.ownAccounts E).lookup strAccount).isSome ↔ ∃ entry ∈ w.mapAddressBook.entries,
      E.isMine (SetDestination entry.1) = true ∧ entry.2 = strAccount := by
  rw [ownAccounts, (lookup_ownAccounts _ _ _).1]
  simp

theorem getD_lookup_ownAccounts (strAccount : List UInt8) :
    ((w.ownAccounts E).lookup strAccount).getD 0 = 0 := by
  apply (lookup_ownAccounts _ _ _).2
  simp

theorem total_ownAccounts : Table.total id (w.ownAccounts E) = 0 := by
  apply Finset.sum_eq_zero
  intro strAccount _
  have hzero := getD_lookup_ownAccounts (E := E) (w := w) strAccount
  cases hlookup : (w.ownAccounts E).lookup strAccount with
  | none => rfl
  | some n =>
    rw [hlookup] at hzero
    exact hzero

variable (E w nMinDepth) in
def pendingMovement (strAccount : List UInt8) : ℤ :=
  ((w.transactions.filter fun wtx => ! E.IsFinal wtx).map fun wtx =>
    movement E w nMinDepth wtx strAccount).sum

theorem share_pending (h : ∀ wtx ∈ w.transactions, (w.GetAmounts E wtx).isSome)
    (strAccount : List UInt8) :
    share (postedBy E w nMinDepth false) strAccount =
      pendingMovement E w nMinDepth strAccount := by
  have hfilter : (w.transactions.filter fun wtx => E.IsFinal wtx == false) =
      w.transactions.filter fun wtx => ! E.IsFinal wtx := by
    apply filter_congr
    intro wtx _
    cases E.IsFinal wtx <;> rfl
  rw [postedBy, pendingMovement, share_flatMap, hfilter]
  refine congrArg sum (map_congr_left ?_)
  intro wtx hmem
  obtain ⟨amounts, hamounts⟩ := Option.isSome_iff_exists.mp (h wtx (mem_of_mem_filter hmem))
  rw [← share_postings hamounts, postingsOf, hamounts, Option.elim_some]

variable (E w nMinDepth) in
def IsAccount (strAccount : List UInt8) : Prop :=
  (∃ entry ∈ w.mapAddressBook.entries,
    E.isMine (SetDestination entry.1) = true ∧ entry.2 = strAccount) ∨
  (∃ wtx ∈ w.transactions, wtx.strFromAccount = strAccount ∨
    nMinDepth ≤ E.GetDepthInMainChain wtx ∧ ∃ txout ∈ ownOutputs E w wtx,
      w.accountOf (ExtractDestination E.digests txout.scriptPubKey) = strAccount) ∨
  ∃ r ∈ w.acentries.records, r.1.1 = strAccount

/-- The accounts that a transaction posts to. -/
theorem exists_postings_iff {wtx : AccountTx} (h : w.GetAmounts E wtx = some amounts)
    (strAccount : List UInt8) :
    (∃ p ∈ postings E w nMinDepth wtx amounts, p.1 = strAccount) ↔
      wtx.strFromAccount = strAccount ∨
        nMinDepth ≤ E.GetDepthInMainChain wtx ∧ ∃ txout ∈ ownOutputs E w wtx,
          w.accountOf (ExtractDestination E.digests txout.scriptPubKey) = strAccount := by
  obtain ⟨_, _, _, hsender, hreceived, _⟩ := GetAmounts_eq_some h
  rw [postings, hsender, hreceived]
  constructor
  · rintro ⟨p, hmem, hname⟩
    rw [mem_append, mem_cons, mem_map] at hmem
    rcases hmem with (rfl | ⟨s, _, rfl⟩) | hmem
    · exact Or.inl hname
    · exact Or.inl hname
    · split_ifs at hmem with hdepth
      · rw [map_map, mem_map] at hmem
        obtain ⟨txout, hout, rfl⟩ := hmem
        exact Or.inr ⟨hdepth, txout, hout, hname⟩
      · cases hmem
  · rintro (hname | ⟨hdepth, txout, hout, hname⟩)
    · exact ⟨_, mem_append_left _ mem_cons_self, hname⟩
    · refine ⟨(strAccount, txout.nValue), ?_, rfl⟩
      rw [if_pos hdepth, map_map, mem_append, mem_map]
      exact Or.inr ⟨txout, hout, by simp [hname]⟩

/-- The rows of `listaccounts` are the accounts of the wallet. -/
theorem isSome_lookup_listaccounts (h : w.listaccounts E nMinDepth = some accounts)
    (strAccount : List UInt8) :
    (accounts.lookup strAccount).isSome ↔ IsAccount E w nMinDepth strAccount := by
  obtain ⟨tallied, hrun, h⟩ := Option.bind_eq_some_iff.mp h
  cases h
  obtain ⟨hsome, rfl⟩ := tallyAccounts_run hrun
  rw [isSome_lookup_postAll, isSome_lookup_postAll, isSome_lookup_ownAccounts,
    ListAccountCreditDebit_all, or_assoc]
  apply or_congr Iff.rfl
  apply or_congr
  · constructor
    · rintro ⟨p, hmem, hname⟩
      obtain ⟨wtx, hwtx, hp⟩ := mem_flatMap.mp hmem
      obtain ⟨amounts, hamounts⟩ := Option.isSome_iff_exists.mp (hsome wtx hwtx)
      rw [postingsOf, hamounts] at hp
      exact ⟨wtx, hwtx, (exists_postings_iff hamounts strAccount).mp ⟨p, hp, hname⟩⟩
    · rintro ⟨wtx, hwtx, hposted⟩
      obtain ⟨amounts, hamounts⟩ := Option.isSome_iff_exists.mp (hsome wtx hwtx)
      obtain ⟨p, hp, hname⟩ := (exists_postings_iff hamounts strAccount).mpr hposted
      refine ⟨p, mem_flatMap.mpr ⟨wtx, hwtx, ?_⟩, hname⟩
      rw [postingsOf, hamounts]
      exact hp
  · simp

variable (w) in
/-- What the accounting entries come to. -/
def entriesOf (p : List UInt8 → Bool) : ℤ :=
  ((w.acentries.records.filter fun r => p r.1.1).map fun r => r.2.nCreditDebit).sum

/-- What `listaccounts` and the other two tallies report, in terms of what is posted. -/
theorem listaccounts_spec (h : w.listaccounts E nMinDepth = some accounts) :
    (∀ wtx ∈ w.transactions, (w.GetAmounts E wtx).isSome) ∧
    (∀ strAccount, (accounts.lookup strAccount).getD 0 =
      share (postedBy E w nMinDepth true) strAccount +
        pendingMovement E w nMinDepth strAccount + entriesOf w (· = strAccount)) ∧
    Table.total id accounts = ((postedBy E w nMinDepth true).map Prod.snd).sum +
      ((postedBy E w nMinDepth false).map Prod.snd).sum + entriesOf w fun _ => true := by
  obtain ⟨tallied, hrun, h⟩ := Option.bind_eq_some_iff.mp h
  cases h
  obtain ⟨hsome, rfl⟩ := tallyAccounts_run hrun
  refine ⟨hsome, ?_, ?_⟩
  · intro strAccount
    have hentries : share ((w.acentries.ListAccountCreditDebit strAllAccounts).map
        fun entry => (entry.1, entry.2.nCreditDebit)) strAccount =
        entriesOf w (· = strAccount) := by
      rw [ListAccountCreditDebit_all, map_map, share, filter_map, map_map]
      rfl
    rw [getD_lookup_postAll, getD_lookup_postAll, getD_lookup_ownAccounts,
      share_transactions, share_pending hsome]
    omega
  · have hentries : (((w.acentries.ListAccountCreditDebit strAllAccounts).map
        fun entry => (entry.1, entry.2.nCreditDebit)).map Prod.snd).sum =
        entriesOf w fun _ => true := by
      rw [ListAccountCreditDebit_all, map_map, map_map, entriesOf, filter_true]
      rfl
    rw [total_postAll, total_postAll, total_ownAccounts, sum_transactions]
    omega

theorem GetAccountBalance_eq (hsome : ∀ wtx ∈ w.transactions, (w.GetAmounts E wtx).isSome)
    (strAccount : List UInt8) :
    w.GetAccountBalance E strAccount nMinDepth = some
      (share (postedBy E w nMinDepth true) strAccount +
        entriesOf w fun name => strAccount = strAllAccounts ∨ name = strAccount) := by
  have hentries : w.acentries.GetAccountCreditDebit strAccount =
      entriesOf w fun name => strAccount = strAllAccounts ∨ name = strAccount := by
    unfold AccountingRecords.GetAccountCreditDebit entriesOf
    by_cases hall : strAccount = strAllAccounts
    · rw [hall, ListAccountCreditDebit_all]
      simp [Function.comp_def]
    · rw [ListAccountCreditDebit_of_ne _ hall]
      simp [hall, Function.comp_def]
  rw [GetAccountBalance, postedBy, tallyAccount_run hsome, hentries]
  simp

theorem getbalanceAll_eq (hsome : ∀ wtx ∈ w.transactions, (w.GetAmounts E wtx).isSome)
    (hdepth : 0 ≤ nMinDepth) :
    w.getbalanceAll E nMinDepth = some ((postedBy E w nMinDepth true).map Prod.snd).sum := by
  have hmax : max nMinDepth (-1) = nMinDepth := by omega
  rw [getbalanceAll, postedBy, hmax, tallyAll_run hsome]
  simp

variable (w) in
theorem entriesOf_all :
    entriesOf w (fun _ => true) =
      entriesOf w (· = strAllAccounts) + entriesOf w (· ≠ strAllAccounts) := by
  have hsplit := sum_filter_add_sum_filter_not
    (fun r : (List UInt8 × ℕ) × CAccountingEntry => decide (r.1.1 = strAllAccounts))
    (fun r => r.2.nCreditDebit) w.acentries.records
  unfold entriesOf
  rw [filter_true, ← hsplit]
  simp

theorem pendingMovement_of_not_account (h : w.listaccounts E nMinDepth = some accounts)
    (hnot : ¬ IsAccount E w nMinDepth strAccount) :
    pendingMovement E w nMinDepth strAccount = 0 := by
  obtain ⟨hsome, _, _⟩ := listaccounts_spec h
  rw [← share_pending hsome, share]
  have hnone : (postedBy E w nMinDepth false).filter (fun p => p.1 = strAccount) = [] := by
    rw [filter_eq_nil_iff]
    intro p hp hname
    obtain ⟨wtx, hwtx, hposted⟩ := mem_flatMap.mp hp
    have hwtx := mem_of_mem_filter hwtx
    obtain ⟨amounts, hamounts⟩ := Option.isSome_iff_exists.mp (hsome wtx hwtx)
    rw [postingsOf, hamounts] at hposted
    apply hnot
    exact Or.inr (Or.inl ⟨wtx, hwtx,
      (exists_postings_iff hamounts strAccount).mp ⟨p, hposted, by simpa using hname⟩⟩)
  rw [hnone]
  rfl

end Movements

/-- The balances of `listaccounts` agree with those of the single accounts and with the total
exactly if the transactions that are not final cancel out in every account and, where an account
is called `"*"`, the entries of the others do. -/
theorem accountBalances_agree_iff (E : AccountEnv) (w : AccountWallet) {nMinDepth : ℤ}
    (hdepth : 0 ≤ nMinDepth) {accounts : Table (List UInt8) ℤ}
    (hlist : w.listaccounts E nMinDepth = some accounts) :
    ((∀ strAccount nBalance, accounts.lookup strAccount = some nBalance →
        w.GetAccountBalance E strAccount nMinDepth = some nBalance) ∧
      ∃ nTotal, w.getbalanceAll E nMinDepth = some nTotal ∧
        Table.total id accounts = nTotal + entriesOf w fun _ => true) ↔
    (∀ strAccount, pendingMovement E w nMinDepth strAccount = 0) ∧
      (IsAccount E w nMinDepth strAllAccounts → entriesOf w (· ≠ strAllAccounts) = 0) := by
  obtain ⟨hsome, hbalance, htotal⟩ := listaccounts_spec hlist
  have hall := entriesOf_all w
  constructor
  · rintro ⟨haccounts, nTotal, hget, hsum⟩
    rw [getbalanceAll_eq hsome hdepth] at hget
    have hpending : ((postedBy E w nMinDepth false).map Prod.snd).sum = 0 := by
      have hget := Option.some.inj hget
      omega
    have hequal (strAccount : List UInt8) (haccount : IsAccount E w nMinDepth strAccount) :
        pendingMovement E w nMinDepth strAccount + entriesOf w (· = strAccount) =
          entriesOf w fun name => strAccount = strAllAccounts ∨ name = strAccount := by
      obtain ⟨nBalance, hrow⟩ := Option.isSome_iff_exists.mp
        ((isSome_lookup_listaccounts hlist strAccount).mpr haccount)
      have hvalue := haccounts strAccount nBalance hrow
      have hlisted := hbalance strAccount
      rw [GetAccountBalance_eq hsome] at hvalue
      rw [hrow, Option.getD_some] at hlisted
      have hvalue := Option.some.inj hvalue
      omega
    have hother (strAccount : List UInt8) (hne : strAccount ≠ strAllAccounts) :
        pendingMovement E w nMinDepth strAccount = 0 := by
      by_cases haccount : IsAccount E w nMinDepth strAccount
      · have h := hequal strAccount haccount
        simp only [hne, false_or] at h
        omega
      · exact pendingMovement_of_not_account hlist haccount
    have hstar : pendingMovement E w nMinDepth strAllAccounts = 0 := by
      rw [← share_pending hsome, ← sum_eq_share, hpending]
      intro strAccount hne
      rw [share_pending hsome]
      exact hother strAccount hne
    constructor
    · intro strAccount
      by_cases hne : strAccount = strAllAccounts
      · rw [hne]
        exact hstar
      · exact hother strAccount hne
    · intro haccount
      have h := hequal strAllAccounts haccount
      simp only [true_or, decide_true] at h
      omega
  · rintro ⟨hzero, hentries⟩
    constructor
    · intro strAccount nBalance hrow
      have hlisted := hbalance strAccount
      rw [hrow, Option.getD_some, hzero] at hlisted
      rw [GetAccountBalance_eq hsome, hlisted]
      by_cases hne : strAccount = strAllAccounts
      · have haccount : IsAccount E w nMinDepth strAllAccounts := by
          rw [← isSome_lookup_listaccounts hlist, ← hne, hrow]
          rfl
        have hentries := hentries haccount
        rw [hne]
        simp only [true_or, decide_true, Option.some.injEq]
        omega
      · simp [hne]
    · refine ⟨_, getbalanceAll_eq hsome hdepth, ?_⟩
      have hpending : ((postedBy E w nMinDepth false).map Prod.snd).sum = 0 := by
        apply sum_eq_zero_of_share
        intro strAccount
        rw [share_pending hsome, hzero]
      omega

/-! ## A payment that is not final -/

/-- A node at height 50 whose wallet has the key with the identifier 7. -/
def heightFifty : AccountEnv where
  digests := exampleCrypto.toDigests
  isMine scriptPubKey := scriptPubKey = SetDestination (some (.key 7))
  mainChain _ := none
  nBestHeight := 50
  nAdjustedTime := 1500000000

def paymentUntil (nLockTime : ℕ) : AccountTx :=
  { CWalletTx.null with
    vin := [⟨⟨5, 0⟩, [], 0⟩]
    vout := [⟨5, SetDestination (some (.key 7))⟩]
    nLockTime := nLockTime
    vfChange := []
    fMerkleVerified := false
    nDebitCached := none }

/-- The wallet that has received it, and calls the address `"a"`. -/
def walletPaidUntil (nLockTime : ℕ) : AccountWallet where
  mapWallet := Finmap.singleton 1 (paymentUntil nLockTime)
  mapAddressBook := AList.singleton (some (.key 7)) "a".toUTF8.toList
  acentries := ⟨[], Pairwise.nil, by simp⟩

/-- With a lock time of 100 the payment counts in `listaccounts` only. -/
theorem listaccounts_disagrees : ((walletPaidUntil 100).listaccounts heightFifty 0).bind
        (fun accounts => accounts.lookup "a".toUTF8.toList) = some 5 ∧
      (walletPaidUntil 100).GetAccountBalance heightFifty "a".toUTF8.toList 0 = some 0 ∧
      ((walletPaidUntil 100).listaccounts heightFifty 0).map (Table.total id) = some 5 ∧
      (walletPaidUntil 100).getbalanceAll heightFifty 0 = some 0 ∧
      (walletPaidUntil 100).acentries.records = [] := by
  refine ⟨?_, ?_, ?_, ?_, rfl⟩ <;> with_unfolding_all decide

/-- Without a lock time all three agree. -/
theorem listaccounts_agrees :
    ∃ accounts, (walletPaidUntil 0).listaccounts heightFifty 0 = some accounts ∧
      ∀ strAccount nBalance, accounts.lookup strAccount = some nBalance →
        (walletPaidUntil 0).GetAccountBalance heightFifty strAccount 0 = some nBalance := by
  have hsome : ((walletPaidUntil 0).listaccounts heightFifty 0).isSome := by decide
  obtain ⟨accounts, hlist⟩ := Option.isSome_iff_exists.mp hsome
  refine ⟨accounts, hlist, ?_⟩
  have hagree := (accountBalances_agree_iff heightFifty (walletPaidUntil 0) le_rfl hlist).mpr
  apply (hagree ⟨?_, ?_⟩).1
  · intro strAccount
    rw [pendingMovement]
    rfl
  · intro _
    rfl

end Phoenixcoin.Analysis
