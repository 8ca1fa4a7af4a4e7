import Phoenixcoin.Analysis.Supply
import Phoenixcoin.Analysis.MapGrowth
import Phoenixcoin.Analysis.KeyPoolSafety
import Phoenixcoin.Analysis.FinalAlert
import Phoenixcoin.Analysis.Serialization
import Phoenixcoin.Analysis.WalletLoading
import Phoenixcoin.Analysis.WalletRewriting
import Phoenixcoin.Analysis.IteratorsAlike
import Phoenixcoin.Analysis.Ownership
import Phoenixcoin.Analysis.EncryptionSafety
import Phoenixcoin.Analysis.OrphanBlocks
import Phoenixcoin.Analysis.OldestTried
import Phoenixcoin.Analysis.ResizeGate
import Phoenixcoin.Analysis.MergeKeeps
import Phoenixcoin.Analysis.MerkleBranches
import Phoenixcoin.Analysis.MoneySupply
import Phoenixcoin.Analysis.CoinBaseHeights
import Phoenixcoin.Analysis.SignaturePreimages
import Phoenixcoin.Analysis.OrphanTransactions
import Phoenixcoin.Analysis.Retargets
import Phoenixcoin.Analysis.MessageContainers
import Phoenixcoin.Analysis.AddressGroupings
import Phoenixcoin.Analysis.PassphraseChanges
import Phoenixcoin.Analysis.SentToMany
import Phoenixcoin.Analysis.AddressRoundTrip
import Phoenixcoin.Analysis.PeerTimes
import Phoenixcoin.Analysis.MessageFraming
import Phoenixcoin.Analysis.ReceivedTallies
import Phoenixcoin.Analysis.ListedTransactions
import Phoenixcoin.Analysis.LiveOrphans
import Phoenixcoin.Analysis.AmountOverflow
import Phoenixcoin.Analysis.RepairedFlags
import Phoenixcoin.Analysis.EntryRoundTrips
import Phoenixcoin.Analysis.ScriptForms
import Phoenixcoin.Analysis.HybridRecords
import Phoenixcoin.Analysis.OrderPositions
import Phoenixcoin.Analysis.ChangeKeys
import Phoenixcoin.Analysis.FeeRules
import Phoenixcoin.Analysis.Money
import Phoenixcoin.Analysis.Locators
import Phoenixcoin.Analysis.MapOptions
import Phoenixcoin.Analysis.LockedCoins
import Phoenixcoin.Analysis.HiddenServices
import Phoenixcoin.Analysis.ScriptPushes
import Phoenixcoin.Analysis.ChainSelection
