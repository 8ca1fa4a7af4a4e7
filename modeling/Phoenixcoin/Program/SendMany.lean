import Phoenixcoin.Lib.TextFields
import Phoenixcoin.Program.CreateTransaction
import Phoenixcoin.Program.WalletCommit

/-!
# The command sendmany

`sendmany` of `rpcwallet.cpp` with the values of `json_spirit` that it reads. Its part from
`EnsureWalletIsUnlocked` on is a function of the recipients and their total. Parsing an address and
the arithmetic of `double` in `AmountFromValue` are given.
-/

set_option autoImplicit false

namespace Phoenixcoin.Program

open Lib

/-! ## Values -/

inductive Value_type where
  | obj_type
  | array_type
  | str_type
  | bool_type
  | int_type
  | real_type
  | null_type
deriving DecidableEq, Repr

/-- `json_spirit::Value`; `δ` is the type `double`. -/
inductive Value (δ : Type) where
  | obj (members : List (List UInt8 × Value δ))
  | array (elements : List (Value δ))
  | str (text : List UInt8)
  | bool (b : Bool)
  | int (n : ℤ)
  | real (d : δ)
  | null

inductive RPCErrorCode where
  | RPC_INVALID_ADDRESS_OR_KEY
  | RPC_INVALID_PARAMETER
  | RPC_WALLET_ERROR
  | RPC_WALLET_INSUFFICIENT_FUNDS
  | RPC_WALLET_INVALID_ACCOUNT_NAME
  | RPC_WALLET_UNLOCK_NEEDED
deriving DecidableEq, Repr

open RPCErrorCode

/-- What a command throws. -/
inductive RPCException where
  | runtime_error (msg : List UInt8)
  /-- `"value is type .., expected .."` -/
  | wrongType (type vtype : Value_type)
  /-- An integer that only `uint64` holds, read as `int64`. -/
  | bad_get
  | JSONRPCError (code : RPCErrorCode) (message : List UInt8)
  | moneyRange
  | keyPool (e : KeyPoolError)
  /-- A sum beyond `int64`, which the source does not define, or a fee loop without fuel. -/
  | undefined
deriving DecidableEq, Repr

open RPCException

namespace Value

variable {δ : Type}

def type : Value δ → Value_type
  | obj _ => .obj_type
  | array _ => .array_type
  | str _ => .str_type
  | bool _ => .bool_type
  | int _ => .int_type
  | real _ => .real_type
  | null => .null_type

def get_str : Value δ → Except RPCException (List UInt8)
  | str text => .ok text
  | value => .error (wrongType value.type .str_type)

def get_obj : Value δ → Except RPCException (List (List UInt8 × Value δ))
  | obj members => .ok members
  | value => .error (wrongType value.type .obj_type)

def get_array : Value δ → Except RPCException (List (Value δ))
  | array elements => .ok elements
  | value => .error (wrongType value.type .array_type)

/-- The cast of an `int64` to `int` keeps the low 32 bits. -/
def get_int : Value δ → Except RPCException ℤ
  | int n => if n < 2 ^ 63 then .ok (n.bmod (2 ^ 32)) else .error bad_get
  | value => .error (wrongType value.type .int_type)

end Value

/-! ## The command -/

/-- What the command takes from the rest of the node. `CCoinAddress` gives the destination of a
valid address. -/
structure SendEnv (δ : Type) where
  accounts : AccountEnv
  commit : WalletCommitEnv
  CCoinAddress : List UInt8 → Option CTxDestination
  AmountFromValue : Value δ → Option ℤ

/-- The wallet: durable, as its accounts see it and as `CreateTransaction` sees it. -/
structure SendWallet where
  durable : DurableWallet
  accounts : AccountWallet
  create : CreateEnv
  fCrypted : Bool
  nBalance : ℤ
  create_mapWallet : create.mapWallet = durable.mapWallet
  accounts_mapWallet : ∀ hash,
    (accounts.mapWallet.lookup hash).map (fun wtx => wtx.toCWalletTx) =
      (durable.mapWallet.lookup hash).map fun wtx => wtx.toCWalletTx

/-- What a call draws or finds while it runs: `keyChange` is the key that `CreateTransaction`
reserves, `nFeeLast` the fee of its last round. -/
structure SendChoices where
  rounds : ℕ → RoundChoices
  fuel : ℕ
  nFeeLast : ℤ
  keyChange : CReserveKey
  batch : BatchOutcome
  fAccepted : Bool

/-- The parameters after the map: `nMinDepth` and the comment, empty if there is none. -/
structure SendOptions where
  nMinDepth : ℤ
  comment : List UInt8

variable {δ : Type}

def AccountFromValue (value : Value δ) : Except RPCException (List UInt8) := do
  let strAccount ← value.get_str
  if strAccount = strAllAccounts then
    .error (JSONRPCError RPC_WALLET_INVALID_ACCOUNT_NAME (ascii "Invalid account name"))
  else .ok strAccount

/-- `params[2]` and `params[3]`. -/
def readOptions (params : List (Value δ)) : Except RPCException SendOptions := do
  let nMinDepth ← match params[2]? with
    | none => .ok 1
    | some value => value.get_int
  let comment ← match params[3]? with
    | none => .ok []
    | some .null => .ok []
    | some value => value.get_str
  .ok ⟨max nMinDepth 0, comment⟩

def sendmanyHelp (fCrypted : Bool) : List UInt8 :=
  ascii "sendmany <account> \x7baddress:amount,...\x7d [minconf] [comment]\n" ++
    ascii "Sends from <account> to multiple recipients.\n" ++
    ascii "Amounts are floating point numbers rounded to the nearest 0.00000001\n" ++
    ascii "[minconf] specifies the number of confirmations required, 1 by default." ++
    if fCrypted then ascii "\nrequires wallet passphrase to be set with walletpassphrase first"
    else []

namespace SendEnv

variable (E : SendEnv δ)

/-- The loop over `inputs`. It fills `setAddress` and neither `vecSend` nor `totalAmount`. -/
def checkInputs : List (Value δ) → Finset CTxDestination →
    Except RPCException (Finset CTxDestination)
  | [], setAddress => .ok setAddress
  | input :: inputs, setAddress =>
    match input.get_str with
    | .error e => .error e
    | .ok strAddress =>
      match E.CCoinAddress strAddress with
      | none => .error (JSONRPCError RPC_INVALID_ADDRESS_OR_KEY
          (ascii "Invalid Phoenixcoin address: " ++ strAddress))
      | some dest =>
        if dest ∈ setAddress then
          .error (JSONRPCError RPC_INVALID_PARAMETER
            (ascii "Invalid parameter, duplicated address: " ++ strAddress))
        else checkInputs inputs (insert dest setAddress)

/-- `wtx` once `CreateTransaction` has filled it. -/
def sentTx (strAccount comment : List UInt8) (tx : CTransaction) : WalletCoins :=
  { WalletCoins.ofTransaction tx with
    strFromAccount := strAccount
    mapValue := if comment = [] then [] else [(ascii "comment", comment)]
    fTimeReceivedIsTxTime := 1
    fFromMe := 1 }

/-- `nFeeRequired` after `CreateTransaction` has failed. -/
def feeRequired (c : SendChoices) : FailReason → ℤ
  | .noOutputs => 0
  | .invalidOutputAmount => 0
  | _ => c.nFeeLast

/-- The command from `EnsureWalletIsUnlocked` on. -/
def sendRecipients (strAccount : List UInt8) (options : SendOptions)
    (vecSend : List (CScript × ℤ)) (totalAmount : ℤ) (w : SendWallet) (c : SendChoices) :
    Except RPCException uint256 × DurableWallet :=
  if w.durable.keyPool.fLocked then
    (.error (JSONRPCError RPC_WALLET_UNLOCK_NEEDED (ascii
      "Error: Please enter the wallet passphrase with walletpassphrase first.")), w.durable)
  else
    match w.accounts.GetAccountBalance E.accounts strAccount options.nMinDepth with
    | none => (.error moneyRange, w.durable)
    | some nBalance =>
      if totalAmount > nBalance then
        (.error (JSONRPCError RPC_WALLET_INSUFFICIENT_FUNDS
          (ascii "Account has insufficient funds")), w.durable)
      else
        match CreateTransaction w.create c.rounds c.fuel vecSend with
        | none => (.error undefined, w.durable)
        | some .undefined => (.error undefined, w.durable)
        | some (.failed strFailReason) =>
          if totalAmount + feeRequired c strFailReason > w.nBalance then
            (.error (JSONRPCError RPC_WALLET_INSUFFICIENT_FUNDS (ascii "Insufficient funds")),
              w.durable)
          else
            (.error (JSONRPCError RPC_WALLET_ERROR (ascii "Transaction creation failed")),
              w.durable)
        | some (.created tx _ _) =>
          let wtx := sentTx strAccount options.comment tx
          let done := E.commit.CommitTransaction c.batch c.fAccepted wtx c.keyChange w.durable
          match done.result with
          | .error e => (.error (keyPool e), done.wallet)
          | .ok false =>
            (.error (JSONRPCError RPC_WALLET_ERROR (ascii "Transaction commit failed")),
              done.wallet)
          | .ok true => (.ok (E.commit.txHash tx), done.wallet)

/-- The command up to `EnsureWalletIsUnlocked`. The array is read from `params[0]`. -/
def readSendmany (fHelp fCrypted : Bool) (params : List (Value δ)) :
    Except RPCException (List UInt8 × SendOptions) :=
  match fHelp, params with
  | false, account :: map :: rest =>
    if rest.length > 2 then .error (runtime_error (sendmanyHelp fCrypted))
    else do
      let strAccount ← AccountFromValue account
      let _sendTo ← map.get_obj
      let options ← readOptions params
      let inputs ← account.get_array
      let _setAddress ← E.checkInputs inputs ∅
      .ok (strAccount, options)
  | _, _ => .error (runtime_error (sendmanyHelp fCrypted))

def sendmany (fHelp : Bool) (params : List (Value δ)) (w : SendWallet) (c : SendChoices) :
    Except RPCException uint256 × DurableWallet :=
  match E.readSendmany fHelp w.fCrypted params with
  | .error e => (.error e, w.durable)
  | .ok (strAccount, options) => E.sendRecipients strAccount options [] 0 w c

end SendEnv

end Phoenixcoin.Program
