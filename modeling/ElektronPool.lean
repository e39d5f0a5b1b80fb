import ElektronPool.Async.Run
import ElektronPool.Js.Number
import ElektronPool.Js.Text
import ElektronPool.Async.Pool
import ElektronPool.Js.OrderedMap
import ElektronPool.Pplns.Conservation
import ElektronPool.Pplns.Maturity
import ElektronPool.Pplns.Payments
import ElektronPool.Auth.AuthService
import ElektronPool.Auth.Ownership
import ElektronPool.Stratum.Backpressure
import ElektronPool.Stratum.PoolRegistry
import ElektronPool.Stratum.HighScores
import ElektronPool.Stratum.ClientStatistics
import ElektronPool.Stratum.Vardiff
import ElektronPool.Stratum.BlockFound
import ElektronPool.Stratum.CleanJobs
import ElektronPool.Stratum.Duplicates
import ElektronPool.Pplns.Batches
import ElektronPool.Pplns.LedgerHistory
import ElektronPool.Pplns.Solvency
import ElektronPool.Pplns.Thresholds
import ElektronPool.Pplns.WindowDelay
import ElektronPool.Stratum.Authorizations
import ElektronPool.Stratum.Diagnostics
import ElektronPool.Stratum.Dispatch
import ElektronPool.Stratum.Headers
import ElektronPool.Stratum.LateReplies
import ElektronPool.Stratum.Presence
import ElektronPool.Stratum.SearchSpace
import ElektronPool.Auth.Challenges
import ElektronPool.Js.TextStream
import ElektronPool.Pplns.FailedWrites
import ElektronPool.Pplns.PaymentRequests
import ElektronPool.Pplns.Proportional
import ElektronPool.Pplns.Pruning
import ElektronPool.Pplns.Reorganisations
import ElektronPool.Stratum.Handshake
import ElektronPool.Stratum.IssuedWork
import ElektronPool.Stratum.SocketData
import ElektronPool.Stratum.PoolWallet
import ElektronPool.Stratum.MerkleBranch
import ElektronPool.Stratum.TimeSlots
import ElektronPool.Stratum.Tips
import ElektronPool.Stratum.VersionBits
import ElektronPool.Stratum.Accounting
import ElektronPool.Stratum.ClientRows
import ElektronPool.Stratum.HeightPush
import ElektronPool.Stratum.NearestPower
import ElektronPool.Async.Histories
import ElektronPool.Auth.AccountSettings
import ElektronPool.Js.Decimal
import ElektronPool.Pplns.WalletRpc
import ElektronPool.Pplns.Confirmations
import ElektronPool.Stratum.Charts
import ElektronPool.Telegram.Bot
import ElektronPool.Telegram.Updates
import ElektronPool.Js.Recent
import ElektronPool.Js.Hex
import ElektronPool.Stratum.BlockReports
import ElektronPool.Stratum.ExternalShares
import ElektronPool.Async.Streams
import ElektronPool.Stratum.NewBlocks
import ElektronPool.Js.Regex
import ElektronPool.Stratum.Patterns
import ElektronPool.Stratum.DeadClients
import ElektronPool.Async.Nested
import ElektronPool.Whole.Pool
import ElektronPool.Whole.ShareLog
import ElektronPool.Whole.Work
import ElektronPool.Whole.Winner
