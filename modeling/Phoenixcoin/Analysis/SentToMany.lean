import Phoenixcoin.Analysis.CreatedTransactions
import Phoenixcoin.Analysis.WalletCommits
import Phoenixcoin.Program.SendMany

/-!
# Payments to many

The first half of `sendmany` reads the addresses from `params[0]`, which is the account, so the
command throws whatever the map says, and the second half is never reached.
-/

set_option autoImplicit false

namespace Phoenixcoin.Analysis

open Lib Program RPCErrorCode RPCException

/-! ## What is paid -/

/-- The recipients of a payment as `CreateTransaction` takes them. -/
def vecSendOf (recipients : List (CTxDestination × ℤ)) : List (CScript × ℤ) :=
  recipients.map fun r => (SetDestination (some r.1), r.2)

def WithinBalance {δ : Type} (E : SendEnv δ) (w : SendWallet) (strAccount : List UInt8)
    (options : SendOptions) (totalAmount : ℤ) : Prop :=
  ∃ nBalance, w.accounts.GetAccountBalance E.accounts strAccount options.nMinDepth =
    some nBalance ∧ totalAmount ≤ nBalance

/-- The wallet has a transaction with exactly the given outputs and at most one more. -/
def PaysExactly (w : DurableWallet) (id : uint256) (vecSend : List (CScript × ℤ)) : Prop :=
  ∃ wtx, w.mapWallet.lookup id = some wtx ∧
    ∃ change : List CTxOut, change.length ≤ 1 ∧ wtx.vout.Perm (change ++ payees vecSend)

theorem OutputsFor.pays {vecSend : List (CScript × ℤ)} {vout : List CTxOut}
    {vfChange : List Bool} (h : OutputsFor vecSend vout vfChange) :
    ∃ change : List CTxOut, change.length ≤ 1 ∧ vout.Perm (change ++ payees vecSend) := by
  rcases h with ⟨rfl, _⟩ | ⟨nChangeIndex, change, hindex, _, rfl, _⟩
  · exact ⟨[], Nat.zero_le 1, List.Perm.refl _⟩
  · rw [← length_payees vecSend] at hindex
    exact ⟨[change], le_rfl, List.perm_insertIdx change _ hindex.le⟩

section Send

variable {δ : Type} {E : SendEnv δ} {w : SendWallet} {c : SendChoices}
  {strAccount : List UInt8} {options : SendOptions}

/-- The half of the command that it never reaches does pay: what it commits under a new identifier
pays the recipients that it is given, within the balance of the account. -/
theorem sendRecipients_pays {vecSend : List (CScript × ℤ)} {totalAmount : ℤ} {id : uint256}
    {w' : DurableWallet} (hkept : WalletKept E.commit w.durable.mapWallet)
    (hnew : id ∉ w.durable.mapWallet)
    (hsent : E.sendRecipients strAccount options vecSend totalAmount w c = (.ok id, w')) :
    WithinBalance E w strAccount options totalAmount ∧ PaysExactly w' id vecSend := by
  unfold SendEnv.sendRecipients at hsent
  split at hsent
  · cases hsent
  · split at hsent
    · cases hsent
    · next nBalance hbalance =>
      split at hsent
      · cases hsent
      · next hfunds =>
        refine ⟨⟨nBalance, hbalance, not_lt.mp hfunds⟩, ?_⟩
        split at hsent
        · cases hsent
        · cases hsent
        · split at hsent <;> cases hsent
        · next tx vfChange nFeeRet hcreated =>
          dsimp only at hsent
          split at hsent
          · cases hsent
          · cases hsent
          · next hresult =>
            cases hsent
            have hcommitted : (E.commit.CommitTransaction c.batch c.fAccepted
                (SendEnv.sentTx strAccount options.comment tx) c.keyChange
                w.durable).fCommitted = true :=
              CommitTransaction_fCommitted hresult
            obtain ⟨wtx, hlookup, hvout⟩ := CommitTransaction_adds hkept hnew hcommitted
            refine ⟨wtx, hlookup, ?_⟩
            rw [hvout]
            exact ((createTransaction_balanced _ _ _).2 _ _ _ _ hcreated).outputs.pays

/-! ## The first half -/

theorem readSendmany_throws (fHelp fCrypted : Bool) (params : List (Value δ)) :
    ∃ e, E.readSendmany fHelp fCrypted params = .error e := by
  unfold SendEnv.readSendmany
  split
  · next account map rest =>
    split
    · exact ⟨_, rfl⟩
    · cases account with
      | str text =>
        cases haccount : AccountFromValue (.str text : Value δ) with
        | error e => exact ⟨e, rfl⟩
        | ok strAccount =>
          cases hmap : map.get_obj with
          | error e => exact ⟨e, rfl⟩
          | ok sendTo =>
            cases hoptions : readOptions (.str text :: map :: rest) with
            | error e => exact ⟨e, rfl⟩
            | ok options => exact ⟨wrongType .str_type .array_type, rfl⟩
      | _ => exact ⟨_, rfl⟩
  · exact ⟨_, rfl⟩

theorem sendmany_throws (fHelp : Bool) (params : List (Value δ)) (w : SendWallet)
    (c : SendChoices) : ∃ e, E.sendmany fHelp params w c = (.error e, w.durable) := by
  obtain ⟨e, hread⟩ := readSendmany_throws (E := E) fHelp w.fCrypted params
  refine ⟨e, ?_⟩
  rw [SendEnv.sendmany, hread]

end Send

/-! ## Requests -/

/-- The parameters of a payment: an account, a map from addresses to amounts, and options. -/
structure SendRequest (δ : Type) where
  strAccount : List UInt8
  sendTo : List (List UInt8 × Value δ)
  rest : List (Value δ)

namespace SendRequest

variable {δ : Type} (E : SendEnv δ) (r : SendRequest δ)

def params : List (Value δ) := .str r.strAccount :: .obj r.sendTo :: r.rest

def recipients : Option (List (CTxDestination × ℤ)) :=
  r.sendTo.mapM fun item => do
    let dest ← E.CCoinAddress item.1
    let nAmount ← E.AmountFromValue item.2
    some (dest, nAmount)

def BadAddresses : Prop :=
  (∃ item ∈ r.sendTo, E.CCoinAddress item.1 = none) ∨
    ¬ (r.sendTo.map fun item => E.CCoinAddress item.1).Nodup

/-- What the command should do with a request: an identifier stands for a transaction that pays
exactly the recipients, within the balance of the account; bad addresses are rejected, and the
wallet stays as it was. -/
structure PaysEveryone (w : SendWallet) (c : SendChoices) : Prop where
  exactly : ∀ id w', E.sendmany false r.params w c = (.ok id, w') →
    ∃ options recipients, readOptions r.params = .ok options ∧
      r.recipients E = some recipients ∧ (recipients.map Prod.fst).Nodup ∧
      WithinBalance E w r.strAccount options (recipients.map Prod.snd).sum ∧
      PaysExactly w' id (vecSendOf recipients)
  rejected : r.BadAddresses E → ∃ e, E.sendmany false r.params w c = (.error e, w.durable)

end SendRequest

/-- No identifier is returned that stands for anything but a payment to everyone: the command
throws on every request and leaves the wallet as it was. -/
theorem sendmany_pays_everyone {δ : Type} (E : SendEnv δ) (r : SendRequest δ) (w : SendWallet)
    (c : SendChoices) : r.PaysEveryone E w c := by
  obtain ⟨e, hthrows⟩ := sendmany_throws (E := E) false r.params w c
  refine ⟨?_, fun _ => ⟨e, hthrows⟩⟩
  intro id w' hpaid
  rw [hthrows] at hpaid
  cases hpaid

end Phoenixcoin.Analysis
