import Phoenixcoin.Analysis.AccountBalances
import Phoenixcoin.Lib.Windows
import Phoenixcoin.Program.AccountQueries

/-!
# The window of listed transactions

What `listtransactions` replies. It looks at the account of accounting entries only, so that its
window is the requested one exactly if the transactions in front of its end all belong to the
account.
-/

set_option autoImplicit false

namespace Phoenixcoin.Analysis

open Lib Program AccountWallet List

/-! ## What was asked for -/

section Requested

variable (E : AccountEnv) (w : AccountWallet) (strAccount : List UInt8)

/-- Whether a transaction sends from an account or pays to one of its addresses: whether
`ListTransactions` makes entries of it. -/
def InvolvesAccount (wtx : AccountTx) : Bool :=
  (w.GetAmounts E wtx).any fun amounts =>
    ((! amounts.listSent.isEmpty || amounts.nFee ≠ 0) && amounts.strSentAccount = strAccount) ||
      amounts.listReceived.any fun r => w.accountOf r.1 = strAccount

def BelongsTo : TxPair → Bool
  | .tx _ wtx => strAccount = strAllAccounts || InvolvesAccount E w strAccount wtx
  | .acentry key _ => strAccount = strAllAccounts || key.1 = strAccount

/-- All transactions of the wallet and some accounting entries, the newest first. -/
def newestFirst (acentries : List ((List UInt8 × ℕ) × CAccountingEntry)) : List TxPair :=
  ((w.txPairs ++ acentries.map fun r => TxPair.acentry r.1 r.2).insertionSort
    fun a b => a.nOrderPos ≤ b.nOrderPos).reverse

/-- The entries of the account from `nFrom` on, the oldest first. -/
def requestedEntries (nCount nFrom : ℕ) : List TxPair :=
  (window nFrom nCount
    ((newestFirst w w.acentries.records).filter (BelongsTo E w strAccount))).reverse

/-- What `listtransactions` goes through, the newest first. -/
def listedEntries : List TxPair := newestFirst w (w.acentries.ListEntries strAccount)

end Requested

section Listing

variable {E : AccountEnv} {w : AccountWallet} {strAccount : List UInt8}

def isListed (strAccount : List UInt8) : TxPair → Bool
  | .tx _ _ => true
  | .acentry key _ => strAccount = strAllAccounts || key.1 = strAccount

theorem isListed_of_belongsTo {item : TxPair} (h : BelongsTo E w strAccount item = true) :
    isListed strAccount item = true := by
  cases item with
  | tx hash wtx => rfl
  | acentry key entry => exact h

instance : IsTrans TxPair fun a b => a.nOrderPos ≤ b.nOrderPos := ⟨fun _ _ _ => le_trans⟩

instance : Std.Total fun a b : TxPair => a.nOrderPos ≤ b.nOrderPos := ⟨fun _ _ => le_total _ _⟩

theorem filter_newestFirst (p : TxPair → Bool)
    (acentries : List ((List UInt8 × ℕ) × CAccountingEntry)) :
    (newestFirst w acentries).filter p =
      ((w.txPairs.filter p ++
          (acentries.map fun r => TxPair.acentry r.1 r.2).filter p).insertionSort
        fun a b => a.nOrderPos ≤ b.nOrderPos).reverse := by
  rw [newestFirst, filter_reverse, filter_insertionSort, filter_append]

theorem listedEntries_eq :
    listedEntries w strAccount =
      (newestFirst w w.acentries.records).filter (isListed strAccount) := by
  have htx : w.txPairs.filter (isListed strAccount) = w.txPairs := by
    rw [filter_eq_self]
    intro item hitem
    obtain ⟨entry, -, rfl⟩ := List.mem_map.mp hitem
    rfl
  have hentries : (w.acentries.records.map fun r => TxPair.acentry r.1 r.2).filter
      (isListed strAccount) =
      (w.acentries.ListEntries strAccount).map fun r => TxPair.acentry r.1 r.2 := by
    rw [List.filter_map]
    by_cases hall : strAccount = strAllAccounts
    · rw [hall, ListEntries_all]
      simp [Function.comp_def, isListed]
    · rw [ListEntries_of_ne w.acentries hall]
      simp [Function.comp_def, isListed, hall]
  rw [filter_newestFirst, htx, hentries]
  rfl

theorem requestedEntries_eq (nCount nFrom : ℕ) :
    requestedEntries E w strAccount nCount nFrom =
      (window nFrom nCount
        ((listedEntries w strAccount).filter (BelongsTo E w strAccount))).reverse := by
  have hfilter : (newestFirst w w.acentries.records).filter (BelongsTo E w strAccount) =
      (listedEntries w strAccount).filter (BelongsTo E w strAccount) := by
    rw [listedEntries_eq, List.filter_filter]
    apply filter_congr
    intro item _
    cases hbelongs : BelongsTo E w strAccount item with
    | false => rfl
    | true => simp [isListed_of_belongsTo hbelongs]
  rw [requestedEntries, hfilter]

/-- No entry is gone through twice. -/
theorem nodup_listedEntries : (listedEntries w strAccount).Nodup := by
  have htx : w.txPairs.Nodup := by
    have hkeys : ((Table.sortedEntries w.mapWallet).map Prod.fst).Nodup := by
      rw [Table.map_fst_sortedEntries]
      exact Table.nodup_sortedKeys w.mapWallet
    apply List.Nodup.map_on _ (List.Nodup.of_map Prod.fst hkeys)
    intro a _ b _ h
    injection h with hhash hwtx
    exact Prod.ext hhash hwtx
  have hrecords : (w.acentries.records.map fun r => TxPair.acentry r.1 r.2).Nodup := by
    rw [nodup_map_iff_inj_on]
    · intro a _ b _ h
      injection h with hkey hentry
      exact Prod.ext hkey hentry
    · apply w.acentries.sorted.imp
      rintro a b hlt rfl
      exact List.lt_irrefl _ hlt
  have hall : (w.txPairs ++ w.acentries.records.map fun r => TxPair.acentry r.1 r.2).Nodup := by
    apply List.Nodup.append htx hrecords
    intro item hitem hentry
    obtain ⟨a, -, rfl⟩ := List.mem_map.mp hitem
    obtain ⟨b, -, hb⟩ := List.mem_map.mp hentry
    cases hb
  rw [listedEntries_eq]
  apply List.Nodup.filter
  rw [newestFirst, nodup_reverse, (perm_insertionSort _ _).nodup_iff]
  exact hall

/-! ## The loop -/

variable {n nCount nFrom : ℕ}

theorem toInt_of_lt (h : n < 2 ^ 31) : toInt n = n :=
  Int.bmod_eq_of_le (by omega) (by omega)

theorem int32_of_lt (h : n < 2 ^ 31) : int32 n = some (n : ℤ) := by
  rw [int32, if_pos (by omega)]

theorem int32_add_of_lt {m : ℕ} (h : n + m < 2 ^ 31) :
    int32 ((n : ℤ) + m) = some ((n + m : ℕ) : ℤ) := by
  exact int32_of_lt h

variable {items ret : List TxPair}

theorem collectEntries_eq (henough : nCount + nFrom < 2 ^ 31)
    (hlisted : ∀ item ∈ items, isListed strAccount item = true) (ret : List TxPair)
    (hret : ret.length < max 1 (nCount + nFrom)) :
    collectEntries strAccount nCount nFrom ret items =
      .ok (ret ++ items.take (max 1 (nCount + nFrom - ret.length))) := by
  induction items generalizing ret with
  | nil => simp [collectEntries]
  | cons item items ih =>
    have happend : appendEntry strAccount ret item = ret ++ [item] := by
      have hitem := hlisted item mem_cons_self
      cases item with
      | tx hash wtx => rfl
      | acentry key entry =>
        have hitem : strAccount = strAllAccounts ∨ key.1 = strAccount := by
          simpa [isListed] using hitem
        rw [appendEntry, if_pos hitem]
    have hint : int32 (nCount + nFrom) = some ((nCount + nFrom : ℕ) : ℤ) :=
      int32_add_of_lt henough
    have hlength : toInt (ret ++ [item]).length = ((ret ++ [item]).length : ℕ) := by
      apply toInt_of_lt
      rw [length_append, length_singleton]
      omega
    rw [collectEntries, happend, hint]
    dsimp only
    rw [hlength, length_append]
    by_cases hdone : nCount + nFrom ≤ ret.length + 1
    · have hmax : max 1 (nCount + nFrom - ret.length) = 1 := by omega
      rw [if_pos (by exact_mod_cast hdone), hmax]
      simp
    · have hnext : max 1 (nCount + nFrom - (ret ++ [item]).length) =
          nCount + nFrom - ret.length - 1 := by
        rw [length_append, length_singleton]
        omega
      have hthis : max 1 (nCount + nFrom - ret.length) = nCount + nFrom - ret.length - 1 + 1 := by
        omega
      rw [if_neg (by exact_mod_cast hdone),
        ih (fun item h => hlisted item (mem_cons_of_mem _ h)), hnext, hthis]
      · simp
      · rw [length_append, length_singleton]
        omega

/-- The sum of the two numbers is formed once there is an entry. -/
theorem collectEntries_overflow (henough : 2 ^ 31 ≤ nCount + nFrom) (hne : items ≠ [])
    (ret : List TxPair) :
    collectEntries strAccount nCount nFrom ret items = .error .overflow := by
  cases items with
  | nil => exact absurd rfl hne
  | cons item items =>
    have hint : int32 (nCount + nFrom) = none := by
      rw [int32, if_neg (by omega)]
    rw [collectEntries, hint]

theorem window_eq_cut (nFrom nCount : ℕ) (ret : List TxPair) :
    window nFrom nCount ret =
      (ret.take (min nFrom ret.length + min nCount (ret.length - nFrom))).drop
        (min nFrom ret.length) := by
  have hdrop : ret.drop (min nFrom ret.length) = ret.drop nFrom := by
    rcases le_total nFrom ret.length with hle | hle
    · rw [min_eq_left hle]
    · rw [min_eq_right hle, drop_length, drop_of_length_le hle]
  rw [window, drop_take, hdrop, take_eq_take_iff, length_drop]
  omega

/-- The places at which the reply is cut. -/
theorem cutEntries_of_places {nCount nFrom nStart nLast nKept nEnd : ℤ}
    (hstart : (if toInt ret.length < nFrom then toInt ret.length else nFrom) = nStart)
    (hlast : int32 (nStart + nCount) = some nLast)
    (hkept : (if toInt ret.length < nLast then toInt (ret.length - nStart) else nCount) = nKept)
    (hend : int32 (nStart + nKept) = some nEnd)
    (hinside : 0 ≤ nStart ∧ nStart ≤ nEnd ∧ nEnd ≤ ret.length) :
    cutEntries nCount nFrom ret = .ok ((ret.take nEnd.toNat).drop nStart.toNat) := by
  unfold cutEntries
  simp only [hstart, hlast, hkept, hend]
  rw [if_pos hinside]

/-- The reply is cut to the window. -/
theorem cutEntries_eq (hcount : nCount < 2 ^ 31) (hret : ret.length < 2 ^ 31)
    (henough : min nFrom ret.length + nCount < 2 ^ 31) :
    cutEntries nCount nFrom ret = .ok (window nFrom nCount ret) := by
  have hlength := toInt_of_lt hret
  have hstart : (if toInt ret.length < nFrom then toInt ret.length else (nFrom : ℤ)) =
      (min nFrom ret.length : ℕ) := by
    split_ifs <;> omega
  have hkept : (if toInt ret.length < ((min nFrom ret.length + nCount : ℕ) : ℤ) then
      toInt (ret.length - (min nFrom ret.length : ℕ)) else (nCount : ℤ)) =
        (min nCount (ret.length - nFrom) : ℕ) := by
    have hrest : ((ret.length : ℤ) - (min nFrom ret.length : ℕ)) =
        ((ret.length - nFrom : ℕ) : ℤ) := by omega
    rw [hlength, hrest, toInt_of_lt (by omega)]
    split_ifs <;> omega
  have hcut := cutEntries_of_places hstart (int32_add_of_lt henough) hkept
    (int32_add_of_lt (by omega)) (by omega)
  rw [hcut, Int.toNat_natCast, Int.toNat_natCast, window_eq_cut]

/-! ## The reply -/

/-- What `listtransactions` does with numbers that are not negative. -/
theorem listtransactions_eq {nCount nFrom : ℤ} (hcount : ¬ nCount < 0) (hfrom : ¬ nFrom < 0) :
    w.listtransactions strAccount nCount nFrom =
      ((w.OrderedTxItems strAccount).bind fun txOrdered =>
        (collectEntries strAccount nCount nFrom [] txOrdered.reverse).bind fun ret =>
          (cutEntries nCount nFrom ret).bind fun ret => .ok ret.reverse) := by
  rw [AccountWallet.listtransactions, if_neg hcount, if_neg hfrom]
  rfl

theorem OrderedTxItems_eq :
    w.OrderedTxItems strAccount =
      if ∀ r ∈ w.acentries.ListEntries strAccount, r.2.ReadOrderPos.isSome then
        .ok (listedEntries w strAccount).reverse
      else .error .unreadable := by
  rw [AccountWallet.OrderedTxItems, listedEntries, newestFirst, reverse_reverse]
  simp only [List.all_eq_true]

/-- `listtransactions` replies with the window that was asked for exactly if the accounting entries
of the account can be read, the sum of the two numbers is one where there is something to list,
and the window is empty or everything up to its end belongs to the account. -/
theorem listtransactions_window_iff (E : AccountEnv) (w : AccountWallet) (strAccount : List UInt8)
    {nCount : ℕ} (hcount : nCount < 2 ^ 31) (nFrom : ℕ) :
    w.listtransactions strAccount nCount nFrom =
        .ok (requestedEntries E w strAccount nCount nFrom) ↔
      (∀ r ∈ w.acentries.ListEntries strAccount, r.2.ReadOrderPos.isSome) ∧
      (listedEntries w strAccount = [] ∨ nCount + nFrom < 2 ^ 31) ∧
      (nCount = 0 ∨ (listedEntries w strAccount).length ≤ nFrom ∨
        ∀ item ∈ (listedEntries w strAccount).take (nFrom + nCount),
          BelongsTo E w strAccount item = true) := by
  rw [listtransactions_eq (by omega) (by omega), OrderedTxItems_eq, requestedEntries_eq]
  by_cases hread : ∀ r ∈ w.acentries.ListEntries strAccount, r.2.ReadOrderPos.isSome
  · rw [if_pos hread, Except.bind, reverse_reverse, and_iff_right hread]
    have hlisted : ∀ item ∈ listedEntries w strAccount, isListed strAccount item = true := by
      rw [listedEntries_eq]
      intro item hitem
      exact of_mem_filter hitem
    by_cases hempty : listedEntries w strAccount = []
    · have hcut : cutEntries nCount nFrom [] = .ok (window nFrom nCount []) :=
        cutEntries_eq hcount (by simp) (by simpa using hcount)
      rw [hempty, collectEntries, Except.bind, hcut]
      simp [window, Except.bind]
    · by_cases henough : nCount + nFrom < 2 ^ 31
      · have hlength : ((listedEntries w strAccount).take
          (max 1 (nCount + nFrom))).length < 2 ^ 31 :=
          (length_take_le _ _).trans_lt (by omega)
        have hcollect := collectEntries_eq henough hlisted [] (by simp)
        rw [nil_append, length_nil, Nat.sub_zero] at hcollect
        rw [hcollect, Except.bind, cutEntries_eq hcount hlength (by omega), Except.bind,
          window_take (by omega), Except.ok.injEq, reverse_inj, eq_comm,
          window_filter_eq_iff nodup_listedEntries, and_iff_right (Or.inr henough)]
      · rw [collectEntries_overflow (not_lt.mp henough) hempty]
        constructor
        · intro h
          cases h
        · rintro ⟨hnone | hsmall, -⟩
          · exact absurd hnone hempty
          · exact absurd hsmall henough
  · rw [if_neg hread]
    constructor
    · intro h
      cases h
    · rintro ⟨h, -⟩
      exact absurd h hread

end Listing

/-! ## A payment to another account -/

/-- The payment to `"a"` is listed for `"b"`, and two large numbers have no sum. -/
theorem payment_listed_elsewhere :
    (walletPaidUntil 0).listtransactions "b".toUTF8.toList 10 0 = .ok [.tx 1 (paymentUntil 0)] ∧
      requestedEntries heightFifty (walletPaidUntil 0) "b".toUTF8.toList 10 0 = [] ∧
      (walletPaidUntil 0).listtransactions strAllAccounts (2 ^ 31 - 1) 1 = .error .overflow := by
  refine ⟨?_, ?_, ?_⟩ <;> with_unfolding_all decide

/-- It is listed for `"a"`, as it should be. -/
theorem payment_listed :
    (walletPaidUntil 0).listtransactions "a".toUTF8.toList (10 : ℕ) (0 : ℕ) =
      .ok (requestedEntries heightFifty (walletPaidUntil 0) "a".toUTF8.toList 10 0) := by
  apply (listtransactions_window_iff heightFifty (walletPaidUntil 0) "a".toUTF8.toList
    (by simp) 0).mpr
  refine ⟨by decide, Or.inr (by simp), Or.inr (Or.inr ?_)⟩
  with_unfolding_all decide

end Phoenixcoin.Analysis
