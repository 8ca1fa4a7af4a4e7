import Mathlib.Data.Finset.Sort
import Mathlib.Data.Prod.Lex
import Phoenixcoin.Program.Accounts

/-!
# Address groupings

`GetAddressGroupings` of `wallet.cpp`: it collects the addresses that the inputs and the change of
the transactions of a wallet show to belong together, and merges the groups that overlap through
pointers to sets.
-/

set_option autoImplicit false

namespace Phoenixcoin.Program

open Lib CTxDestination

/-! ## Ordered sets of addresses -/

/-- The position of the type in the variant, and the identifier. -/
def CTxDestination.rank : CTxDestination → ℕ ×ₗ ℕ
  | .key id => toLex (1, id)
  | .script id => toLex (2, id)
  | .hybridKey id => toLex (3, id)

theorem CTxDestination.rank_injective : Function.Injective rank := by
  intro a b h
  cases a <;> cases b <;> simp_all [rank]

instance : LinearOrder CTxDestination :=
  LinearOrder.lift' rank rank_injective

/-- A set of sets as a loop goes through it. -/
def inSetOrder (groupings : List (Finset CTxDestination)) : List (Finset CTxDestination) :=
  groupings.dedup.mergeSort fun s t => decide (s.sort ≤ t.sort)

namespace AccountWallet

variable (E : AccountEnv) (w : AccountWallet)

/-! ## Collecting -/

/-- The output of a wallet transaction that an input spends. -/
def spentOutput (txin : CTxIn) : Option CTxOut :=
  (w.mapWallet.lookup txin.prevout.hash).bind fun prev => prev.vout[txin.prevout.n]?

/-- `IsMine` of an input. -/
def isMineInput (txin : CTxIn) : Bool :=
  (w.spentOutput txin).any fun txout => E.isMine txout.scriptPubKey

variable (wtx : AccountTx)

/-- The addresses of the inputs of a transaction. -/
def inputAddresses : List CTxDestination :=
  wtx.vin.filterMap fun txin =>
    (w.spentOutput txin).bind fun txout => ExtractDestination E.digests txout.scriptPubKey

/-- The addresses of the change of a transaction. -/
def changeAddresses : List CTxDestination :=
  (wtx.vout.zipIdx.filter fun output => w.IsChange E wtx output.2).filterMap fun output =>
    ExtractDestination E.digests output.1.scriptPubKey

/-- The addresses of the outputs of a transaction that are mine. -/
def ownAddresses : List CTxDestination :=
  (wtx.vout.filter fun txout => E.isMine txout.scriptPubKey).filterMap fun txout =>
    ExtractDestination E.digests txout.scriptPubKey

/-- What one transaction adds to `groupings`. -/
def groupingsOf : List (Finset CTxDestination) :=
  (if wtx.vin.head?.any (w.isMineInput E) then
      [(w.inputAddresses E wtx ++ w.changeAddresses E wtx).toFinset]
    else []) ++
    (ownAddresses E wtx).map fun address => {address}

/-- `groupings`, as they were inserted. -/
def collectGroupings : List (Finset CTxDestination) := w.transactions.flatMap (w.groupingsOf E)

end AccountWallet

/-! ## Merging -/

/-- The sets behind the pointers, the pointers in `uniqueGroupings` and in `setmap`, and how many
sets were allocated; a pointer is the number of its allocation. -/
structure GroupingMerge where
  heap : ℕ → Option (Finset CTxDestination)
  uniqueGroupings : Finset ℕ
  setmap : CTxDestination → Option ℕ
  allocated : ℕ

namespace GroupingMerge

def empty : GroupingMerge := ⟨fun _ => none, ∅, fun _ => none, 0⟩

variable (m : GroupingMerge) (grouping : Finset CTxDestination)

/-- The pointers to the groups that a new one hits. -/
def hits : Finset ℕ := grouping.biUnion fun address => (m.setmap address).toFinset

/-- A set behind a pointer. -/
def deref (pointer : ℕ) : Finset CTxDestination := (m.heap pointer).getD ∅

/-- One round of the merging loop. -/
def mergeGrouping : GroupingMerge :=
  let merged := grouping ∪ (m.hits grouping).biUnion m.deref
  { heap := fun pointer =>
      if pointer = m.allocated then some merged
      else if pointer ∈ m.hits grouping then none
      else m.heap pointer
    uniqueGroupings := insert m.allocated (m.uniqueGroupings \ m.hits grouping)
    setmap := fun element => if element ∈ merged then some m.allocated else m.setmap element
    allocated := m.allocated + 1 }

end GroupingMerge

def AccountWallet.GetAddressGroupings (E : AccountEnv) (w : AccountWallet) :
    Finset (Finset CTxDestination) :=
  let m := (inSetOrder (w.collectGroupings E)).foldl GroupingMerge.mergeGrouping .empty
  m.uniqueGroupings.image m.deref

end Phoenixcoin.Program
