import ContivVPP.GenerateRulesVerdict
import ContivVPP.CombinedRulesVerdict
import ContivVPP.SessionTableVerdict
import ContivVPP.AclResyncVerdict
import ContivVPP.PolicyPlugin
import ContivVPP.NodeNetworks
import ContivVPP.NodeRoutes
import ContivVPP.CNIServerPool
import ContivVPP.ConfiguratorTxnVerdict
import ContivVPP.PolicyCacheContent
import ContivVPP.PolicyAssignment
import ContivVPP.PolicyTranslation
import ContivVPP.ProcessorResync
import ContivVPP.SessionRuleCache
import ContivVPP.ProcessorCurrent
import ContivVPP.ProcessorRun
import ContivVPP.SelectorMatch
import ContivVPP.HandlerLookups
import ContivVPP.RenderCalls
import ContivVPP.SessionRequests
import ContivVPP.KvdbProxy
import ContivVPP.RuleCacheChanges
import ContivVPP.AclDump
import ContivVPP.AclRoundTrip
import ContivVPP.PodDeletion
import ContivVPP.SessionTableOrder
import ContivVPP.SubnetMemory
import ContivVPP.RuleIDs
import ContivVPP.RulesDecide
import ContivVPP.RuleTags
import ContivVPP.IPAMPool
import ContivVPP.PodInterfaces
import ContivVPP.PodIndex
import ContivVPP.KeyDispatch
import ContivVPP.WatcherCallbacks
import ContivVPP.ThreeWay
import ContivVPP.CompareResults
import ContivVPP.RuleListsRun
import ContivVPP.SessionDiffLoop
import ContivVPP.CNICommand
import ContivVPP.TextSearch
import ContivVPP.LineEdits
import ContivVPP.LineColumns
import ContivVPP.LabelInjector
import ContivVPP.LabelInjectorBlocks
import ContivVPP.LabelInjectorLines
import ContivVPP.LabelInjectorVerdict
import ContivVPP.AclRefusals
