import AokChain.Codec.Bytes
import AokChain.Primitives.Transaction
import AokChain.Script.Script
import AokChain.Primitives.Serialize
import AokChain.Crypto
import AokChain.Script.SigHash
import AokChain.Consensus.Params
import AokChain.Tokens.Names
import AokChain.Tokens.TokenScript
import AokChain.Coins.Coins
import AokChain.Governance.Governance
import AokChain.Lib.OrderedMap
import AokChain.Lib.Recency
import AokChain.Lib.DigitBuffer
import AokChain.Lib.MerkleTree
import AokChain.Lib.Limbs
import AokChain.Consensus.TxVerify
import AokChain.Script.ScriptError
import AokChain.Consensus.Block
import AokChain.Codec.VarInt
import AokChain.Coins.Undo
import AokChain.Coins.UndoFormat
import AokChain.Consensus.ScriptChecks
import AokChain.Consensus.Connect
import AokChain.Consensus.ConnectProperties
import AokChain.Lib.Int64Sum
import AokChain.Consensus.Amounts
import AokChain.Consensus.BlockContext
import AokChain.Script.Standard
import AokChain.Governance.Freeze
import AokChain.Consensus.Disconnect
import AokChain.Governance.Revert
import AokChain.Tokens.Classify
import AokChain.Consensus.Header
import AokChain.Wallet.IsMine
import AokChain.Mempool.Mempool
import AokChain.Lib.KeyedSet
import AokChain.Tokens.Cache
import AokChain.Tokens.LRUCache
import AokChain.Tokens.BlockTokens
import AokChain.Tokens.Validity
import AokChain.Tokens.Uniqueness
import AokChain.Coins.CoinRecord
import AokChain.Governance.Counter
import AokChain.Tokens.Construct
import AokChain.Consensus.Pow
import AokChain.Tokens.NameGrammar
import AokChain.Mempool.TokenIndex
import AokChain.Lib.ReadThrough
import AokChain.Tokens.AddressIndex
import AokChain.Script.ScriptNum
import AokChain.Chain.SkipList
import AokChain.Tokens.Base58
import AokChain.Util.FixedPoint
import AokChain.Consensus.Merkle
import AokChain.Primitives.BaseUint
import AokChain.Lib.Mask
import AokChain.Wallet.SelectTokens
import AokChain.Lib.RawBuffer
import AokChain.Primitives.Prevector
import AokChain.Lib.Interleaving
import AokChain.Consensus.CheckQueue
import AokChain.Consensus.CheckQueueInvariant
import AokChain.Lib.KeyedFold
import AokChain.Coins.CoinsViewCache
import AokChain.Coins.CoinsCacheRefinement
import AokChain.Wallet.CreateTransaction
import AokChain.Wallet.FeeLoop
import AokChain.Lib.Closure
import AokChain.Mempool.Entries
import AokChain.Mempool.PackageSearch
import AokChain.Mempool.Frame
import AokChain.Mempool.Consistency
import AokChain.Mempool.FreshEntry
import AokChain.Mempool.Removal
import AokChain.Mempool.AddUnchecked
import AokChain.Mempool.RemovalConsistency
import AokChain.Mempool.Prioritise
import AokChain.Mempool.ClosedRemoval
import AokChain.Mempool.PoolInvariants
import AokChain.Mempool.RemovalPaths
import AokChain.Lib.FuelLoop
import AokChain.Mempool.TrimToSize
import AokChain.Mempool.PoolRuns
