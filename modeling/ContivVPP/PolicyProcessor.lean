import ContivVPP.ConfiguratorTxnVerdict
import ContivVPP.PartialLoops
import ContivVPP.PolicyAssignment

/-!
# The policy processor

For a list of pods the processor looks up their policies, translates them into
Contiv policies and configures the pods with them in one transaction of the
configurator.  A result `none` stands for a crash of the agent.
-/

namespace ContivVPP.Processor

open GoMap K8s Net Configurator PartialLoops

/-! ## The cache -/

/-- The lookups of the cache that the processor uses. -/
structure PolicyCacheAPI where
  lookupPod : LookupPod
  lookupPodsByNSLabelSelector :
    String → Option LabelSelector → Option (List PodID)
  lookupPolicy : PolicyID → Bool × Option Policy
  lookupPoliciesByPod : PodID → Option (List PolicyID)
  listAllPods : Option (List PodID)
  listAllPolicies : Option (List PolicyID)

def PolicyCacheAPI.of (order : RangeOrder String)
    (policyOrder : RangeOrder (String × Policy)) (c : PolicyCache.Cache) :
    PolicyCacheAPI where
  lookupPod := PolicyCache.lookupPod c
  lookupPodsByNSLabelSelector :=
    PolicyCache.lookupPodsByNSLabelSelector order c
  lookupPolicy := PolicyCache.lookupPolicy c
  lookupPoliciesByPod := PolicyCache.lookupPoliciesByPod order policyOrder c
  listAllPods := PolicyCache.listAllPods order c
  listAllPolicies := PolicyCache.listAllPolicies order c

/-! ## Matches -/

section Matches

variable (api : PolicyCacheAPI)

def calculateIPBlock (block : K8s.IPBlock) : Option Configurator.IPBlock := do
  let except ← block.except.mapM parseCIDR
  let network ← parseCIDR block.cidr
  return ⟨network, except⟩

/-- The pods and the IP block of a peer.  Its selector of namespaces is not
read. -/
def calculatePeer (ns : String) (peer : Peer) :
    Option (List PodID × Option Configurator.IPBlock) := do
  let pods ← api.lookupPodsByNSLabelSelector ns peer.pods
  match peer.ipBlock with
  | none => return (pods, none)
  | some block =>
      let block ← calculateIPBlock block
      return (pods, some block)

def toUint16 (number : ℤ) : UInt16 :=
  UInt16.ofNat (number % 65536).toNat

/-- A port without name and number crashes the agent.  The name of a port is
not read. -/
def calculatePort (port : K8s.Port) : Option Configurator.Port := do
  let ref ← port.port
  return ⟨if port.protocol = .udp then .udp else .tcp, toUint16 ref.number⟩

def calculateMatch (ns : String) (type : MatchType) (rule : Rule) :
    Option Match := do
  let peers ← rule.peer.mapM (calculatePeer api ns)
  let ports ← rule.port.mapM calculatePort
  return if rule.peer = [] then ⟨type, none, none, ports⟩
    else ⟨type, some (peers.flatMap Prod.fst),
      some (peers.filterMap Prod.snd), ports⟩

def calculateMatches (policy : Policy) : Option (List Match) := do
  let ingress ← policy.ingressRule.mapM (calculateMatch api policy.ns .ingress)
  let egress ← policy.egressRule.mapM (calculateMatch api policy.ns .egress)
  return ingress ++ egress

end Matches

/-! ## Processing of pods -/

section Process

variable (api : PolicyCacheAPI)

def processType : K8s.PolicyType → Configurator.PolicyType
  | .ingress => .ingress
  | .egress => .egress
  | .ingressAndEgress => .all
  | .default => .ingress

def processData (policyData : Policy) : Option ContivPolicy := do
  let matchList ← calculateMatches api policyData
  return ⟨policyData.id, processType policyData.policyType, matchList⟩

def processPolicy (policy : PolicyID) : Option (Option ContivPolicy) :=
  match api.lookupPolicy policy with
  | (false, _) => some none
  | (true, none) => none
  | (true, some policyData) => (processData api policyData).map some

def processPod (pod : PodID) : Option (List ContivPolicy) := do
  let policiesByPod ← api.lookupPoliciesByPod pod
  let policies ← policiesByPod.mapM (processPolicy api)
  return policies.reduceOption

def process (choices : CommitChoices) (parallelRendering _resync : Bool)
    (pods : List PodID) (contents : List Content) : Option Committed := do
  let calls ← pods.mapM fun pod => (processPod api pod).map (pod, ·)
  commit choices api.lookupPod parallelRendering false (configure calls) contents

def resync (choices : CommitChoices) (parallelRendering : Bool)
    (contents : List Content) : Option Committed := do
  let pods ← api.listAllPods
  process api choices parallelRendering true pods contents

end Process

theorem id_of_processData {api : PolicyCacheAPI} {policy : Policy}
    {cp : ContivPolicy} (h : processData api policy = some cp) :
    cp.id = policy.id := by
  simp only [processData, bind_eq_some_iff, pure_eq_some_iff] at h
  obtain ⟨_, _, rfl⟩ := h
  rfl

end ContivVPP.Processor
