import Doradd.Lib.Machine
import Doradd.Lib.Fifo
import Doradd.Dispatcher.LogFile
import Doradd.Dispatcher.Replay
import Doradd.Dispatcher.Walker
import Doradd.Dispatcher.Batching
import Doradd.Dispatcher.Indexer
import Doradd.Dispatcher.Prefetcher
import Doradd.Dispatcher.RPCHandler
import Doradd.Dispatcher.Pipeline
import Doradd.Dispatcher.Accounting
import Doradd.Dispatcher.FileDispatcher
import Doradd.Dispatcher.Refinement
import Doradd.Dispatcher.Stopping
import Doradd.Dispatcher.Preparation
import Doradd.Dispatcher.InPlace
import Doradd.Lib.Schedule
import Doradd.Lib.Memory
import Doradd.Lib.Footprint
import Doradd.Ycsb.Serial
import Doradd.Ycsb.GenLog
import Doradd.Tpcc.Progress
import Doradd.Tpcc.Serial
import Doradd.Tpcc.Orders
import Doradd.Tpcc.OrderLines
import Doradd.Tpcc.Ledgers
import Doradd.Tpcc.GenLog
import Doradd.Tpcc.GenRecords
import Doradd.Tpcc.Placement
import Doradd.Tpcc.Stock
import Doradd.Tpcc.Remote
import Doradd.Tpcc.Sampling
import Doradd.Tpcc.OrderCustomers
import Doradd.Tpcc.Prepare
import Doradd.Ycsb.Meaning
import Doradd.Ycsb.GenKeys
import Doradd.Ycsb.Prepare
import Doradd.Chain.Prepare
import Doradd.Pointers
import Doradd.Profile.Pipeline
import Doradd.Ycsb.TxnProfile
import Doradd.Prefetch.HashMap
import Doradd.Dispatcher.HugePage
import Doradd.Prefetch.Naive
import Doradd.Prefetch.Sm
import Doradd.Lib.RingBuffer
import Doradd.Prefetch.Coro
import Doradd.Lib.Behaviours
import Doradd.Lib.Interleaving
import Doradd.Dispatcher.FrontEnd
import Doradd.Dispatcher.System
import Doradd.Dispatcher.FileThread
import Doradd.Dispatcher.Program
import Doradd.Ycsb.System
import Doradd.Dispatcher.FirstPass
import Doradd.Lib.SetOps
import Doradd.Prefetch.HashSet
import Doradd.Tpcc.When
import Doradd.Tpcc.System
import Doradd.Tpcc.Consistency
import Doradd.Lib.Linked
import Doradd.Prefetch.Allocator
import Doradd.Prefetch.BinSearch
import Doradd.Tpcc.Accounts
import Doradd.Chain.Transaction
import Doradd.Chain.Generator
import Doradd.Chain.System
import Doradd.Lib.Work
import Doradd.Dispatcher.Draining
import Doradd.Dispatcher.FileDraining
import Doradd.Dispatcher.FileRefinement
