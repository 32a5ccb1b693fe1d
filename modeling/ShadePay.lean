import ShadePay.Lib.Lucas
import ShadePay.Field
import ShadePay.Circuit.Gadgets
import ShadePay.Lib.Reentrancy
import ShadePay.Circuit.Templates
import ShadePay.Circuit.Honest
import ShadePay.Circuit.MpcValue
import ShadePay.Evm.Basic
import ShadePay.Evm.IncrementalMerkleTree
import ShadePay.Circuit.Inclusion
import ShadePay.Proving.Merkle
import ShadePay.Stellar.Basic
import ShadePay.Stellar.LeanImt
import ShadePay.Stellar.TreeProofs
import ShadePay.Stellar.Codec
import ShadePay.Stellar.ShieldedPool
import ShadePay.Stellar.Effects
import ShadePay.Stellar.Verifier
import ShadePay.Stellar.Deposit
import ShadePay.StreamPay.Basic
import ShadePay.Trees
import ShadePay.StreamPay.Effects
import ShadePay.StreamPay.Conservation
import ShadePay.StreamPay.Accrual
import ShadePay.Evm.ShieldedPool
import ShadePay.Evm.StreamEscrow
import ShadePay.Evm.Machine
import ShadePay.Evm.Effects
import ShadePay.Stellar.Runs
import ShadePay.Evm.Runs
import ShadePay.Circuit.Hashing
import ShadePay.Evm.Verifier
import ShadePay.Evm.Spending
import ShadePay.Evm.Supply
import ShadePay.Evm.Channels
import ShadePay.Evm.Solvency
import ShadePay.Evm.Presented
import ShadePay.Evm.Compliance
import ShadePay.Stellar.Guardian
import ShadePay.Stellar.Quorum
import ShadePay.Stellar.Governance
import ShadePay.Committee
import ShadePay.StreamPay.Recovery
import ShadePay.Evm.Vouchers
import ShadePay.Evm.Capacity
import ShadePay.Ports
import ShadePay.Mpc.Matching
import ShadePay.Mpc.Shamir
import ShadePay.Mpc.Coordinator
import ShadePay.Mpc.Effects
import ShadePay.Mpc.Uniqueness
import ShadePay.Mpc.Delivery
import ShadePay.Stellar.Spending
import ShadePay.Stellar.Reserves
import ShadePay.Stellar.Swap
import ShadePay.Lib.Rejection
import ShadePay.Lib.Sharing
import ShadePay.Mpc.Sharing
import ShadePay.Mpc.Secrecy
import ShadePay.Lib.Interleave
import ShadePay.Queue.Basic
import ShadePay.Queue.Effects
import ShadePay.Queue.Exclusion
import ShadePay.Queue.Reopening
import ShadePay.Queue.Enqueue
import ShadePay.Api.Vaults
import ShadePay.Api.Effects
import ShadePay.Api.Isolation
import ShadePay.Api.DepositGate
import ShadePay.Rfq.Basic
import ShadePay.Rfq.Lifecycle
import ShadePay.Rfq.Safety
import ShadePay.Rfq.Settler
import ShadePay.Rfq.Paths
import ShadePay.Stellar.EventLog
import ShadePay.RootAuditor
import ShadePay.Payouts
import ShadePay.Evm.Values
import ShadePay.Circuit.Comparators
import ShadePay.Circuit.Price
import ShadePay.Circuit.Compliance
import ShadePay.Evm.Batches
import ShadePay.Lib.Number
import ShadePay.Streams.Relayer
import ShadePay.Streams.Submission
import ShadePay.Mpc.Groups
import ShadePay.Mpc.Maximum
import ShadePay.Mpc.Bars
import ShadePay.Mpc.Priced
import ShadePay.Proving.Priced
import ShadePay.Streams.Agents
import ShadePay.Streams.Exchange
import ShadePay.Streams.Underpaid
import ShadePay.Evm.Headroom
import ShadePay.Lib.Delimited
import ShadePay.Lib.Text
import ShadePay.Mpc.BatchHash
import ShadePay.Evm.Approval
import ShadePay.Stellar.SignalCodec
import ShadePay.Rfq.SwapTerms
import ShadePay.Evm.StreamLog
import ShadePay.Streams.Receipts
import ShadePay.Lib.Json
import ShadePay.Streams.X402
import ShadePay.Streams.Redeem
import ShadePay.Evm.Wallet
import ShadePay.Proving.Spending
import ShadePay.Evm.Payer
import ShadePay.Proving.Compliance
import ShadePay.Mpc.SignedBatch
import ShadePay.Api.SignIn
import ShadePay.Api.Sessions
import ShadePay.Lib.JsonText
import ShadePay.Lib.Decoding
import ShadePay.Streams.Header
import ShadePay.Mpc.Amounts
import ShadePay.Mpc.Keys
import ShadePay.Stellar.IntentEscrow
