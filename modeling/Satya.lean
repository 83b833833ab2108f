import Satya.MaxHeap
import Satya.GbtBlocks
import Satya.GbtNextBlock
import Satya.Fees
import Satya.Mempool
import Satya.FeesNextBlock
import Satya.History
import Satya.SyncDecision
import Satya.SyncHonesty
import Satya.FeesView
import Satya.Http
import Satya.SyncEstimate
import Satya.SyncReaders
import Satya.SyncReload
import Satya.BitcoinText
import Satya.Chains
import Satya.FeesHashOrder
import Satya.FeesTiers
import Satya.GbtCapacity
import Satya.Json
import Satya.MockNode
import Satya.MockNodeChains
import Satya.MockNodeChurn
import Satya.MockNodeEntries
import Satya.MockNodeMining
import Satya.MockNodeTruth
import Satya.RpcDecode
import Satya.SimServer
import Satya.SyncDrain
import Satya.SyncStaleness
import Satya.FeesU64
import Satya.GbtRates
import Satya.MockNodeCounts
import Satya.RpcCall
import Satya.SyncCooldown
import Satya.SyncDiff
import Satya.FixedWindow
import Satya.MockNodeFrame
import Satya.RpcAuth
import Satya.RpcMethods
import Satya.SimCadence
import Satya.SimDispatch
import Satya.SimLockstep
import Satya.SimNetwork
import Satya.SimTransport
import Satya.SyncReconnect
import Satya.SyncThrottled
import Satya.Zmq
import Satya.FeesIndependent
import Satya.FeesInput
import Satya.SimEstimate
import Satya.Config
import Satya.SyncPacing
import Satya.SyncFetch
