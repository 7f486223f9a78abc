import MindieLLM.BlockManager.PrefixCacheComputed
import MindieLLM.BlockManager.PrefixCacheReset
import MindieLLM.BlockManager.RequestSingleBlockManager
import MindieLLM.Engine.AsyncOutputs
import MindieLLM.Engine.BufferedResponser
import MindieLLM.Engine.LoraManager
import MindieLLM.Engine.DummyQuotaManager
import MindieLLM.Engine.AsyncBatchNum
import MindieLLM.Speculative.KvSlots
import MindieLLM.TextGenerator.StopStrings
import MindieLLM.Speculative.TokenHistoryRuns
import MindieLLM.Scheduler.DynamicBatchSize
import MindieLLM.Connector.ResponseBuilder
import MindieLLM.Scheduler.ThreadGroupCC
import MindieLLM.Runtime.JsonCompletorStalls
import MindieLLM.Connector.EdgePrefillQueue
import MindieLLM.Server.StreamDecode
import MindieLLM.Server.StreamWindow
import MindieLLM.Scheduler.PreScheduler
import MindieLLM.Server.SingleLLMDecodeReqHandler
import MindieLLM.Server.SingleLLMPrefillReqHandler
import MindieLLM.Connector.SharedMemoryManager
import MindieLLM.Server.HandOver
import MindieLLM.BlockManager.RankedBlockIdsRuns
import MindieLLM.BlockManager.CopyOnWriteRuns
import MindieLLM.TextGenerator.ContextReset
import MindieLLM.BlockManager.LRUEvictorOrder
import MindieLLM.Scheduler.FlexQueueOrder
import MindieLLM.Scheduler.HeadProgress
import MindieLLM.Scheduler.SwapGroups
import MindieLLM.Scheduler.DecodeBatchSizeTracker
import MindieLLM.Speculative.OutputStream
import MindieLLM.Speculative.TreeContents
import MindieLLM.Speculative.Drafts
import MindieLLM.TextGenerator.OutputArrays
import MindieLLM.TextGenerator.PoolTransfers
import MindieLLM.TextGenerator.ForkContext
import MindieLLM.TextGenerator.Sampler
import MindieLLM.TextGenerator.PrefixCachePreprocess
import MindieLLM.TextGenerator.BeamSearchSelection
import MindieLLM.Scheduler.TimeDivisionPolicy
import MindieLLM.Scheduler.PrefillRegression
import MindieLLM.Connector.RequestRouterCloud
import MindieLLM.Server.CommonUtil
import MindieLLM.Runtime.ReasoningParser
import MindieLLM.Server.SequenceIdentity
import MindieLLM.Scheduler.LayerwisePlaces
import MindieLLM.Engine.EdgeCloudPolicy
import MindieLLM.Server.TokenizerProcessPool
import MindieLLM.Connector.RouterImpl
