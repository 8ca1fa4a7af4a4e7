import Phoenixcoin.Analysis.AccountBalances
import Phoenixcoin.Analysis.ScriptRuns
import Phoenixcoin.Program.AccountQueries

/-!
# Received amounts

Three functions of `rpcwallet.cpp` tell what an account has received. One adds up the scripts of
an address, one the addresses of a set, and one keeps a tally of all addresses. The set of the
second is always empty, so that the three agree only where nothing was received.
-/

set_option autoImplicit false

namespace Phoenixcoin.Analysis

open Lib Program isminetype txnouttype List AccountWallet

/-! ## The script of a destination -/

/-- An identifier that has the width of the program's `uint160`. -/
def FitsUint160 : CTxDestination → Prop
  | .key id | .script id | .hybridKey id => id < 256 ^ 20

theorem ExtractDestination_SetDestination (D : Digests) {address : CTxDestination}
    (h : FitsUint160 address) :
    ExtractDestination D (SetDestination (some address)) = some address := by
  have hlength (id : uint160) : (toLittleEndian 20 id).length = 20 := length_toLittleEndian 20 id
  cases address with
  | key id =>
    have hid : uint160OfBytes (toLittleEndian 20 id) = id := ofLittleEndian_toLittleEndian h
    have hsolver := Solver_keyHash (hlength id)
    simp [ExtractDestination, SetDestination, pushData_of_length (hlength id), hsolver, hid]
  | script id =>
    have hid : uint160OfBytes (toLittleEndian 20 id) = id := ofLittleEndian_toLittleEndian h
    have hsolver := Solver_scriptHash (hlength id)
    simp [ExtractDestination, SetDestination, pushData_of_length (hlength id), hsolver, hid]
  | hybridKey id =>
    have hid : uint160OfBytes (toLittleEndian 20 id) = id := ofLittleEndian_toLittleEndian h
    have hsolver := Solver_hybridKeyHash (hlength id)
    simp [ExtractDestination, SetDestination, pushData_of_length (hlength id), hsolver, hid]

/-! ## What is added up -/

/-- The environment of the accounts with all answers of `IsMine`. -/
structure ReceivingEnv extends AccountEnv where
  IsMine : CScript → isminetype
  isMine_iff : ∀ scriptPubKey, isMine scriptPubKey = true ↔ IsMine scriptPubKey ≠ MINE_NO

/-- A wallet whose outputs have passed `CheckTransaction`, and whose identifiers have their
width. -/
structure ReceivingWallet extends AccountWallet where
  values : ∀ wtx ∈ toAccountWallet.transactions, ∀ txout ∈ wtx.vout, MoneyRange txout.nValue
  identifiers : ∀ address strAccount,
    mapAddressBook.lookup (some address) = some strAccount → FitsUint160 address

section Loops

variable (E : AccountEnv) (w : AccountWallet) (nMinDepth : ℤ)

def Counts (wtx : AccountTx) : Bool :=
  ! wtx.toCTransaction.IsCoinBase && E.IsFinal wtx && decide (nMinDepth ≤ E.GetDepthInMainChain wtx)

def countedOutputs : List CTxOut :=
  (w.transactions.filter (Counts E nMinDepth)).flatMap fun wtx => wtx.vout

def addressesOf (strAccount : List UInt8) : List CTxDestination :=
  w.mapAddressBook.entries.filterMap fun entry => if entry.2 = strAccount then entry.1 else none

def PaysOwn (address : CTxDestination) (txout : CTxOut) : Prop :=
  ExtractDestination E.digests txout.scriptPubKey = some address ∧
    E.isMine (SetDestination (some address)) = true

instance (address : CTxDestination) (txout : CTxOut) : Decidable (PaysOwn E address txout) :=
  inferInstanceAs (Decidable (_ ∧ _))

/-- What `listreceivedbyaccount` reports for an account, which is zero if it lists none. -/
def listedAmount (fIncludeEmpty : Bool) (strAccount : List UInt8) : ℤ :=
  ((w.listreceivedbyaccount E nMinDepth fIncludeEmpty).lookup strAccount).elim 0
    tallyitem.nAmount

variable {E w nMinDepth}

theorem mem_addressesOf {strAccount : List UInt8} {address : CTxDestination} :
    address ∈ addressesOf w strAccount ↔
      w.mapAddressBook.lookup (some address) = some strAccount := by
  have hentry : w.mapAddressBook.lookup (some address) = some strAccount ↔
      (⟨some address, strAccount⟩ : Sigma fun _ : Option CTxDestination => List UInt8) ∈
        w.mapAddressBook.entries := mem_dlookup_iff w.mapAddressBook.nodupKeys
  rw [addressesOf, mem_filterMap, hentry]
  constructor
  · rintro ⟨⟨destination, name⟩, hmem, hsome⟩
    obtain ⟨rfl, rfl⟩ : name = strAccount ∧ destination = some address := by simpa using hsome
    exact hmem
  · intro hmem
    exact ⟨_, hmem, by simp⟩

/-- A loop that adds to a figure of its state. -/
theorem foldl_add {S A : Type} {f : S → A → S} (figure : S → ℤ) {g : A → ℤ} {l : List A}
    (h : ∀ s, ∀ a ∈ l, figure (f s a) = figure s + g a) (s : S) :
    figure (l.foldl f s) = figure s + (l.map g).sum := by
  induction l generalizing s with
  | nil => simp
  | cons a l ih =>
    rw [foldl_cons, ih fun s a ha => h s a (mem_cons_of_mem _ ha),
      h s a mem_cons_self, map_cons, sum_cons, add_assoc]

variable (E w nMinDepth) in
theorem foldOutputs_add {S : Type} {counts : AccountTx → Bool} {f : AccountTx → S → CTxOut → S}
    (figure : S → ℤ) {g : CTxOut → ℤ}
    (hskip : ∀ wtx, counts wtx = false → ¬ nMinDepth ≤ E.GetDepthInMainChain wtx)
    (hstep : ∀ wtx s txout, counts wtx = true → figure (f wtx s txout) =
      figure s + if nMinDepth ≤ E.GetDepthInMainChain wtx then g txout else 0) (s : S) :
    figure (w.foldOutputs E counts f s) =
      figure s + ((countedOutputs E w nMinDepth).map g).sum := by
  unfold foldOutputs
  rw [foldl_add figure (g := fun wtx => if Counts E nMinDepth wtx then (wtx.vout.map g).sum else 0)]
  · unfold countedOutputs
    congr 1
    induction w.transactions with
    | nil => rfl
    | cons wtx l ih =>
      by_cases hcounts : Counts E nMinDepth wtx = true
      · simp [hcounts, ih]
      · simp [hcounts, ih]
  · intro s wtx _
    by_cases hleft : wtx.toCTransaction.IsCoinBase ∨ ¬ E.IsFinal wtx
    · have hcounts : Counts E nMinDepth wtx = false := by
        rcases hleft with hbase | hfinal
        · simp [Counts, hbase]
        · simp [Counts, hfinal]
      rw [if_pos hleft, hcounts]
      simp
    · rw [if_neg hleft]
      rw [not_or, not_not] at hleft
      by_cases hcount : counts wtx = true
      · rw [if_neg (by simp [hcount]), foldl_add figure fun s txout _ => hstep wtx s txout hcount]
        by_cases hdepth : nMinDepth ≤ E.GetDepthInMainChain wtx
        · simp [Counts, hleft, hdepth]
        · simp [Counts, hdepth]
      · have hdepth := hskip wtx (by simpa using hcount)
        rw [if_pos hcount]
        simp [Counts, hdepth]

/-! ## The three amounts -/

theorem getreceivedbyaddress_eq (hdepth : 0 ≤ nMinDepth) (address : CTxDestination) :
    w.getreceivedbyaddress E nMinDepth address =
      if E.isMine (SetDestination (some address)) then
        ((countedOutputs E w nMinDepth).map fun txout =>
          if txout.scriptPubKey = SetDestination (some address) then txout.nValue else 0).sum
      else 0 := by
  have hmax : max nMinDepth (-1) = nMinDepth := by omega
  unfold getreceivedbyaddress
  by_cases hmine : E.isMine (SetDestination (some address)) = true
  · simp only [hmine, not_true_eq_false, if_false, if_true, hmax]
    refine (foldOutputs_add E w nMinDepth (fun nAmount : ℤ => nAmount) (g := fun txout =>
      if txout.scriptPubKey = SetDestination (some address) then txout.nValue else 0)
      ?_ ?_ 0).trans (zero_add _)
    · simp
    · intro wtx nAmount txout _
      split_ifs <;> simp
  · simp [hmine]

theorem GetAccountAddresses_eq (strAccount : List UInt8) (setAddress : Finset CTxDestination) :
    w.GetAccountAddresses strAccount setAddress = setAddress := by
  unfold GetAccountAddresses
  induction w.mapAddressBook.entries with
  | nil => rfl
  | cons entry entries ih =>
    rw [foldl_cons, ite_self]
    exact ih

/-- No address is in the set that `getreceivedbyaccount` asks. -/
theorem getreceivedbyaccount_eq {strAccount : List UInt8} (h : strAccount ≠ strAllAccounts) :
    w.getreceivedbyaccount E nMinDepth strAccount = some 0 := by
  rw [getreceivedbyaccount, if_neg h, GetAccountAddresses_eq]
  simp only [Finset.notMem_empty, and_false, if_false, Option.some.injEq]
  refine (foldOutputs_add E w nMinDepth (fun nAmount : ℤ => nAmount) (g := fun _ => 0)
    ?_ ?_ 0).trans ?_
  · simp
  · intro wtx nAmount txout _
    cases ExtractDestination E.digests txout.scriptPubKey <;> simp
  · simp

def amountIn {K : Type} [DecidableEq K] (k : K) (tally : Table K tallyitem) : ℤ :=
  (tally.lookup k).elim 0 tallyitem.nAmount

theorem amountIn_addToTally {K : Type} [DecidableEq K] (k key : K) (nAmount nConf : ℤ)
    (tally : Table K tallyitem) :
    amountIn k (addToTally key nAmount nConf tally) =
      amountIn k tally + if key = k then nAmount else 0 := by
  unfold amountIn addToTally
  by_cases hk : k = key
  · subst hk
    cases tally.lookup k <;> simp [tallyitem.new]
  · simp [hk, Ne.symm hk]

theorem amountIn_mapTally (address : CTxDestination) :
    amountIn address (w.mapTally E nMinDepth) =
      ((countedOutputs E w nMinDepth).map fun txout =>
        if PaysOwn E address txout then txout.nValue else 0).sum := by
  rw [mapTally, foldOutputs_add E w nMinDepth (amountIn address)
    (g := fun txout => if PaysOwn E address txout then txout.nValue else 0)]
  · simp [amountIn]
  · simp
  · intro wtx tally txout hcount
    have hdepth : nMinDepth ≤ E.GetDepthInMainChain wtx := by simpa using hcount
    rw [if_pos hdepth]
    split
    · next hextract =>
      have hnot : ¬ PaysOwn E address txout := by simp [PaysOwn, hextract]
      simp [hnot]
    · next other hextract =>
      have hpays : PaysOwn E address txout ↔
          other = address ∧ E.isMine (SetDestination (some other)) = true := by
        rw [PaysOwn, hextract, Option.some.injEq]
        constructor
        · rintro ⟨rfl, hmine⟩
          exact ⟨rfl, hmine⟩
        · rintro ⟨rfl, hmine⟩
          exact ⟨rfl, hmine⟩
      by_cases hmine : E.isMine (SetDestination (some other)) = true
      · rw [if_pos hmine, amountIn_addToTally]
        simp [hpays, hmine]
      · simp [hpays, hmine]

theorem listedAmount_eq (fIncludeEmpty : Bool) (strAccount : List UInt8) :
    listedAmount E w nMinDepth fIncludeEmpty strAccount =
      ((addressesOf w strAccount).map fun address =>
        amountIn address (w.mapTally E nMinDepth)).sum := by
  change amountIn strAccount (w.listreceivedbyaccount E nMinDepth fIncludeEmpty) = _
  unfold listreceivedbyaccount
  rw [foldl_add (amountIn strAccount) (g := fun entry => if entry.2 = strAccount then
    (entry.1.elim 0 fun address => amountIn address (w.mapTally E nMinDepth)) else 0)]
  · have hempty : amountIn strAccount ∅ = 0 := by simp [amountIn]
    rw [hempty, zero_add, addressesOf]
    induction w.mapAddressBook.entries with
    | nil => rfl
    | cons entry entries ih =>
      obtain ⟨destination, name⟩ := entry
      by_cases hname : name = strAccount
      · cases destination with
        | none => simp [hname, ih]
        | some address => simp [hname, ih]
      · simp [hname, ih]
  · intro mapAccountTally entry _
    obtain ⟨destination, name⟩ := entry
    have hnone (h : destination.bind (w.mapTally E nMinDepth).lookup = none) :
        (destination.elim 0 fun address => amountIn address (w.mapTally E nMinDepth)) = 0 := by
      cases destination with
      | none => rfl
      | some address => simpa [amountIn] using congrArg (Option.elim · 0 tallyitem.nAmount) h
    cases hlookup : destination.bind (w.mapTally E nMinDepth).lookup with
    | none =>
      rw [hnone hlookup]
      cases fIncludeEmpty with
      | true =>
        rw [if_pos rfl, amountIn_addToTally]
      | false => simp
    | some received =>
      obtain ⟨address, rfl, haddress⟩ := Option.bind_eq_some_iff.mp hlookup
      rw [amountIn_addToTally]
      simp [amountIn, haddress]

theorem exists_of_mem_countedOutputs {txout : CTxOut} (h : txout ∈ countedOutputs E w nMinDepth) :
    ∃ wtx ∈ w.transactions, txout ∈ wtx.vout := by
  obtain ⟨wtx, hwtx, hmem⟩ := mem_flatMap.mp h
  exact ⟨wtx, mem_of_mem_filter hwtx, hmem⟩

end Loops

/-! ## Agreement -/

section Agreement

variable (E : ReceivingEnv) (w : ReceivingWallet) (nMinDepth : ℤ) (strAccount : List UInt8)

def spendableAddresses : List CTxDestination :=
  (addressesOf w.toAccountWallet strAccount).filter fun address =>
    E.IsMine (SetDestination (some address)) = MINE_SPENDABLE

def BuiltScripts : Prop :=
  ∀ wtx ∈ w.transactions, ∀ txout ∈ wtx.vout, ∀ address ∈ spendableAddresses E w strAccount,
    ExtractDestination E.digests txout.scriptPubKey = some address →
      txout.scriptPubKey = SetDestination (some address)

def sumOfAddresses : ℤ :=
  ((spendableAddresses E w strAccount).map fun address =>
    w.getreceivedbyaddress E.toAccountEnv nMinDepth address).sum

def NothingReceived : Prop :=
  ∀ txout ∈ countedOutputs E.toAccountEnv w.toAccountWallet nMinDepth, 0 < txout.nValue →
    ∀ address, PaysOwn E.toAccountEnv address txout →
      w.mapAddressBook.lookup (some address) ≠ some strAccount

variable {E w nMinDepth strAccount}

theorem value_nonneg {txout : CTxOut}
    (h : txout ∈ countedOutputs E.toAccountEnv w.toAccountWallet nMinDepth) :
    0 ≤ txout.nValue := by
  obtain ⟨wtx, hwtx, hmem⟩ := exists_of_mem_countedOutputs h
  exact (w.values wtx hwtx txout hmem).1

theorem paysOwn_of_scriptPubKey {address : CTxDestination} {txout : CTxOut}
    (hmem : address ∈ spendableAddresses E w strAccount)
    (hscript : txout.scriptPubKey = SetDestination (some address)) :
    PaysOwn E.toAccountEnv address txout := by
  have hmine := of_mem_filter hmem
  have hlabel := mem_addressesOf.mp (mem_of_mem_filter hmem)
  constructor
  · rw [hscript]
    exact ExtractDestination_SetDestination E.digests (w.identifiers address strAccount hlabel)
  · rw [E.isMine_iff]
    simp_all

theorem listedAmount_eq_zero_iff (fIncludeEmpty : Bool) :
    listedAmount E.toAccountEnv w.toAccountWallet nMinDepth fIncludeEmpty strAccount = 0 ↔
      NothingReceived E w nMinDepth strAccount := by
  have hterm (address : CTxDestination) (txout : CTxOut)
      (h : txout ∈ countedOutputs E.toAccountEnv w.toAccountWallet nMinDepth) :
      0 ≤ if PaysOwn E.toAccountEnv address txout then txout.nValue else 0 := by
    split_ifs
    · exact value_nonneg h
    · exact le_rfl
  have hamount (address : CTxDestination) :
      0 ≤ amountIn address (w.mapTally E.toAccountEnv nMinDepth) := by
    rw [amountIn_mapTally]
    apply sum_nonneg
    intro n hn
    obtain ⟨txout, hmem, rfl⟩ := mem_map.mp hn
    exact hterm address txout hmem
  rw [listedAmount_eq]
  constructor
  · intro hsum txout hmem hpos address hpays hlabel
    have haddress : amountIn address (w.mapTally E.toAccountEnv nMinDepth) = 0 := by
      apply all_zero_of_le_zero_le_of_sum_eq_zero _ hsum
      · exact mem_map_of_mem (mem_addressesOf.mpr hlabel)
      · intro n hn
        obtain ⟨other, -, rfl⟩ := mem_map.mp hn
        exact hamount other
    rw [amountIn_mapTally] at haddress
    have hzero : (if PaysOwn E.toAccountEnv address txout then txout.nValue else 0) = 0 := by
      apply all_zero_of_le_zero_le_of_sum_eq_zero _ haddress
      · exact mem_map.mpr ⟨txout, hmem, rfl⟩
      · intro n hn
        obtain ⟨other, hother, rfl⟩ := mem_map.mp hn
        exact hterm address other hother
    rw [if_pos hpays] at hzero
    omega
  · intro hnothing
    apply sum_eq_zero
    intro n hn
    obtain ⟨address, haddress, rfl⟩ := mem_map.mp hn
    rw [amountIn_mapTally]
    apply sum_eq_zero
    intro n hn
    obtain ⟨txout, hmem, rfl⟩ := mem_map.mp hn
    split_ifs with hpays
    · by_contra hne
      have hpos : 0 < txout.nValue := lt_of_le_of_ne (value_nonneg hmem) (Ne.symm hne)
      exact hnothing txout hmem hpos address hpays (mem_addressesOf.mp haddress)
    · rfl

theorem sumOfAddresses_eq (hdepth : 0 ≤ nMinDepth) :
    sumOfAddresses E w nMinDepth strAccount =
      ((spendableAddresses E w strAccount).map fun address =>
        ((countedOutputs E.toAccountEnv w.toAccountWallet nMinDepth).map fun txout =>
          if txout.scriptPubKey = SetDestination (some address) then txout.nValue
          else 0).sum).sum := by
  unfold sumOfAddresses
  congr 1
  apply map_congr_left
  intro address haddress
  have hmine : E.isMine (SetDestination (some address)) = true := by
    have hspendable := of_mem_filter haddress
    rw [E.isMine_iff]
    simp_all
  rw [getreceivedbyaddress_eq hdepth, if_pos hmine]

theorem sumOfAddresses_eq_zero (hdepth : 0 ≤ nMinDepth)
    (h : NothingReceived E w nMinDepth strAccount) :
    sumOfAddresses E w nMinDepth strAccount = 0 := by
  rw [sumOfAddresses_eq hdepth]
  apply sum_eq_zero
  intro n hn
  obtain ⟨address, haddress, rfl⟩ := mem_map.mp hn
  apply sum_eq_zero
  intro n hn
  obtain ⟨txout, hmem, rfl⟩ := mem_map.mp hn
  split_ifs with hscript
  · by_contra hne
    have hpos : 0 < txout.nValue := lt_of_le_of_ne (value_nonneg hmem) (Ne.symm hne)
    exact h txout hmem hpos address (paysOwn_of_scriptPubKey haddress hscript)
      (mem_addressesOf.mp (mem_of_mem_filter haddress))
  · rfl

/-- The three amounts of an account agree exactly if nothing of value was received at an address
of it that the wallet knows. -/
theorem receivedAmounts_agree_iff (E : ReceivingEnv) (w : ReceivingWallet) {nMinDepth : ℤ}
    (hdepth : 0 ≤ nMinDepth) {strAccount : List UInt8} (haccount : strAccount ≠ strAllAccounts)
    (fIncludeEmpty : Bool) :
    ((BuiltScripts E w strAccount → w.getreceivedbyaccount E.toAccountEnv nMinDepth strAccount =
        some (sumOfAddresses E w nMinDepth strAccount)) ∧
      w.getreceivedbyaccount E.toAccountEnv nMinDepth strAccount = some
        (listedAmount E.toAccountEnv w.toAccountWallet nMinDepth fIncludeEmpty strAccount)) ↔
    NothingReceived E w nMinDepth strAccount := by
  rw [getreceivedbyaccount_eq haccount, Option.some.injEq, Option.some.injEq, eq_comm (a := 0),
    eq_comm (a := 0), listedAmount_eq_zero_iff]
  constructor
  · exact And.right
  · intro h
    exact ⟨fun _ => sumOfAddresses_eq_zero hdepth h, h⟩

end Agreement

/-! ## A payment to a labelled address -/

/-- The node at height 50, whose wallet can spend what it knows. -/
def receivingFifty : ReceivingEnv where
  toAccountEnv := heightFifty
  IsMine scriptPubKey :=
    if heightFifty.isMine scriptPubKey then MINE_SPENDABLE else MINE_NO
  isMine_iff scriptPubKey := by
    cases heightFifty.isMine scriptPubKey <;> simp

theorem transactions_walletPaidUntil (nLockTime : ℕ) :
    (walletPaidUntil nLockTime).transactions = [paymentUntil nLockTime] := by
  have hkeys : Table.sortedKeys (walletPaidUntil nLockTime).mapWallet = [1] := rfl
  have hlookup : (walletPaidUntil nLockTime).mapWallet.lookup 1 = some (paymentUntil nLockTime) :=
    Finmap.lookup_singleton_eq
  simp [transactions, hkeys, hlookup]

/-- The wallet that received 5 at the address `"a"`. -/
def receivingWallet : ReceivingWallet where
  toAccountWallet := walletPaidUntil 0
  values := by
    rw [transactions_walletPaidUntil]
    decide
  identifiers := by
    intro address strAccount h
    have hkey : (some address) ∈ (walletPaidUntil 0).mapAddressBook :=
      AList.lookup_isSome.mp (Option.isSome_of_eq_some h)
    have haddress : address = .key 7 := by
      simpa [walletPaidUntil, AList.mem_keys, AList.singleton, AList.keys] using hkey
    rw [haddress, FitsUint160]
    norm_num

/-- `getreceivedbyaccount` misses the payment that the other two report. -/
theorem receivedAmounts_disagree :
    BuiltScripts receivingFifty receivingWallet "a".toUTF8.toList ∧
      receivingWallet.getreceivedbyaccount heightFifty 0 "a".toUTF8.toList = some 0 ∧
      sumOfAddresses receivingFifty receivingWallet 0 "a".toUTF8.toList = 5 ∧
      listedAmount heightFifty receivingWallet.toAccountWallet 0 false "a".toUTF8.toList = 5 := by
  refine ⟨?_, by with_unfolding_all decide, by with_unfolding_all decide,
    by with_unfolding_all decide⟩
  intro wtx hwtx txout htxout address haddress hextract
  have hwtx : wtx ∈ (walletPaidUntil 0).transactions := hwtx
  rw [transactions_walletPaidUntil, mem_singleton] at hwtx
  subst hwtx
  have htxout : txout = ⟨5, SetDestination (some (.key 7))⟩ := mem_singleton.mp htxout
  have hseven : FitsUint160 (.key 7) := by
    rw [FitsUint160]
    norm_num
  rw [htxout, ExtractDestination_SetDestination _ hseven] at hextract
  rw [htxout, ← hextract]

/-- Nothing was received at the depth of one. -/
theorem receivedAmounts_agree_deeper :
    receivingWallet.getreceivedbyaccount heightFifty 1 "a".toUTF8.toList =
      some (listedAmount heightFifty receivingWallet.toAccountWallet 1 false
        "a".toUTF8.toList) := by
  have haccount : "a".toUTF8.toList ≠ strAllAccounts := by with_unfolding_all decide
  have hdepth : (0 : ℤ) ≤ 1 := by simp
  have hcounted : countedOutputs heightFifty (walletPaidUntil 0) 1 = [] := by decide
  have hagree := receivedAmounts_agree_iff receivingFifty receivingWallet hdepth haccount false
  apply (hagree.mpr ?_).2
  intro txout hmem
  have hmem : txout ∈ countedOutputs heightFifty (walletPaidUntil 0) 1 := hmem
  simp [hcounted] at hmem

end Phoenixcoin.Analysis
