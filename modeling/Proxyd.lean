import Proxyd.Lib.Descend
import Proxyd.Lib.ZeroMin
import Proxyd.Lib.Except
import Proxyd.Lib.Reach
import Proxyd.Lib.Lease
import Proxyd.Lib.Reorder
import Proxyd.Go.Json
import Proxyd.Eth.Hexutil
import Proxyd.Eth.BlockNumber
import Proxyd.Consensus.Poller
import Proxyd.Consensus.Walk
import Proxyd.Consensus.Tags
import Proxyd.Consensus.Tracker
import Proxyd.Consensus.Leadership
import Proxyd.Rpc.Types
import Proxyd.Rpc.Rewriter
import Proxyd.Rpc.RewriterSpec
import Proxyd.Rpc.RangeCheck
import Proxyd.Rpc.Forward
import Proxyd.Rpc.Batch
import Proxyd.Rpc.Failover
import Proxyd.Io.LimitReader
import Proxyd.Limit.FrontendRateLimiter
import Proxyd.Limit.FallbackRateLimiter
import Proxyd.Rpc.ForwardSpec
import Proxyd.Rpc.BatchSpec
import Proxyd.Ws.ClientPump
import Proxyd.Lib.LinkedMap
import Proxyd.Window.AvgSlidingWindow
import Proxyd.Rpc.Multicall
import Proxyd.Go.Float
import Proxyd.Go.FloatSpec
import Proxyd.Rpc.RewriteFrame
import Proxyd.Go.JsonText
import Proxyd.Lib.Lru
import Proxyd.Caching.Store
import Proxyd.Caching.RpcCache
import Proxyd.Consensus.Candidates
import Proxyd.Consensus.PollerSystem
import Proxyd.Rpc.Routing
import Proxyd.Setup.Start
