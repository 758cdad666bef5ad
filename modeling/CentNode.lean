import CentNode.Coins.CacheStack
import CentNode.Masternode.VoteCounts
import CentNode.Masternode.BudgetAgreement
import CentNode.Masternode.SwiftRequests
import CentNode.Masternode.PayeeTies
import CentNode.Masternode.RejectedVotes
import CentNode.Chain.IndexRuns
import CentNode.Chain.MintedChains
import CentNode.Validation.StandardFlags
import CentNode.Chain.CrashReplay
import CentNode.Chain.StakeWindow
import CentNode.Chain.StakeSpent
import CentNode.Masternode.PayeeAgreement
import CentNode.Mining.Connectable
import CentNode.Validation.MerkleCommitment
import CentNode.Validation.CheckQueue
import CentNode.Masternode.Announcements
import CentNode.Validation.PermanentMarks
import CentNode.Chain.RestartTransparent
import CentNode.Net.AddrManRestore
import CentNode.Masternode.ProposalCycles
import CentNode.Net.OrphanPool
import CentNode.Net.MessageFraming
import CentNode.Masternode.ExpirySweep
import CentNode.Masternode.BroadcastText
import CentNode.Chain.BlockRecords
import CentNode.Chain.TargetRange
import CentNode.Coins.CoinsFormat
import CentNode.Wallet.ValueConservation
import CentNode.Wallet.CollateralCoins
import CentNode.Script.PaymentScript
import CentNode.Net.TimeData
import CentNode.Wallet.CryptoKeyStore
import CentNode.Net.ChosenBlocks
import CentNode.Net.LimitedMap
import CentNode.Net.MerkleBlock
import CentNode.Script.CombinedSignatures
import CentNode.Script.StrictDer
import CentNode.Script.MinimalNumbers
import CentNode.Chain.SkipList
import CentNode.Primitives.MoneyText
import CentNode.Chain.ChainWork
import CentNode.Staking.SelectedBlocks
import CentNode.Mining.FeeRates
