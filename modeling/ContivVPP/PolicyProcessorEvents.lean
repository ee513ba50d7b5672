import ContivVPP.PolicyCacheContent
import ContivVPP.PolicyProcessor

/-!
# Notifications of the policy processor

The processor watches the cache.  For each notification it determines the pods
whose policies may have changed, keeps those of its own node, and processes
them again.  A changed pod concerns the pods of all policies with a peer that
its labels match, according to a test that is not the one of the cache.
-/

namespace ContivVPP.Processor

open GoMap K8s Net Configurator PolicyCache

/-! ## Peers that match a pod -/

section Match

variable (pod : Pod)

def isMatchLabel (matchLabels : List Label) (policyNamespace : String) : Bool :=
  matchLabels.all fun matchLabel =>
    nsLabel policyNamespace matchLabel ∈ pod.label.map (nsLabel pod.ns)

-- A key that has to exist and does ends the loop, and one that must not exist
-- and does not is taken for a mismatch.
def isMatchExpression (policyNamespace : String) : List LabelExpression → Bool
  | [] => true
  | expression :: expressions =>
      let labels := constructLabels expression.key expression.value
      let hasKey := policyNamespace ++ "/" ++ expression.key ∈
        pod.label.map fun label => pod.ns ++ "/" ++ label.key
      match expression.operator with
      | .isIn =>
          if isMatchLabel pod labels policyNamespace then
            isMatchExpression policyNamespace expressions
          else false
      | .notIn =>
          if isMatchLabel pod labels policyNamespace then false
          else isMatchExpression policyNamespace expressions
      | .exists =>
          if hasKey then true
          else isMatchExpression policyNamespace expressions
      | .doesNotExist =>
          if hasKey then isMatchExpression policyNamespace expressions
          else false

def calculateLabelSelectorMatches (matchLabels : List Label)
    (matchExpressions : List LabelExpression) (policyNamespace : String) :
    Bool :=
  if matchLabels ≠ [] ∧ matchExpressions ≠ [] then
    isMatchLabel pod matchLabels policyNamespace &&
      isMatchExpression pod policyNamespace matchExpressions
  else if matchExpressions ≠ [] then
    isMatchExpression pod policyNamespace matchExpressions
  else if matchLabels ≠ [] then
    isMatchLabel pod matchLabels policyNamespace
  else true

def matchesPeer (policyNamespace : String) (peer : Peer) : Bool :=
  match peer.pods with
  | none => calculateLabelSelectorMatches pod [] [] policyNamespace
  | some selector =>
      calculateLabelSelectorMatches pod selector.matchLabel
        selector.matchExpression policyNamespace

def addOnce (policies : List Policy) (dataPolicy : Policy) : List Policy :=
  if policies.all fun policy => policy.id.string != dataPolicy.id.string then
    policies ++ [dataPolicy]
  else policies

def addMatching (policies : List Policy) (dataPolicy : Policy) : List Policy :=
  ((dataPolicy.ingressRule ++ dataPolicy.egressRule).flatMap Rule.peer).foldl
    (fun policies peer =>
      if matchesPeer pod dataPolicy.ns peer then addOnce policies dataPolicy
      else policies) policies

end Match

/-! ## Pods to process -/

section Handlers

variable (order : RangeOrder String) (api : PolicyCacheAPI) (hostNetwork : IPNet)

def installedPolicies : Option (List Policy) := do
  let allPolicies ← api.listAllPolicies
  let dataPolicies ← allPolicies.mapM fun id =>
    match api.lookupPolicy id with
    | (false, _) => some none
    | (true, none) => none
    | (true, some policyData) => some (some policyData)
  return dataPolicies.reduceOption

def podsOfPolicies (policies : List Policy) : Option (List PodID) := do
  let pods ← policies.mapM fun policy =>
    api.lookupPodsByNSLabelSelector policy.ns policy.pods
  return pods.flatten

def uniquePods (pods : List PodID) : Option (List PodID) :=
  unstringPodID (removeDuplicates order (pods.map PodID.string))

/-- The pods of the current node, told by an address of theirs; there is no
address if missing data are dereferenced for it. -/
def hostPods (ipAddress : Option Pod → Option String) (pods : List PodID) :
    Option (List PodID) := do
  let onHost ← pods.mapM fun hostPod =>
    match api.lookupPod hostPod with
    | (false, _) => some none
    | (true, hostPodData) => (ipAddress hostPodData).map fun text =>
        let podIPAddress := (parseIP text).getD []
        if hostNetwork.contains podIPAddress then some hostPod else none
  return onHost.reduceOption

/-- The identifier of a pod, an empty one without data. -/
def podID (pod : Option Pod) : PodID :=
  (pod.map Pod.id).getD ⟨"", ""⟩

abbrev PodIPAddressMap := AList fun _ : String => String

-- Whether a pod is one of the node is told by the address of its last update.
def delPod (podIPAddressMap : PodIPAddressMap) (pod : Pod) :
    Option (List PodID) :=
  if pod.ns = "kube-system" then some []
  else do
    let dataPolicies ← installedPolicies api
    let policies := dataPolicies.foldl (addMatching pod) []
    let pods ← podsOfPolicies api policies
    let pods ← uniquePods order pods
    hostPods api hostNetwork (fun hostPodData =>
      some ((podIPAddressMap.lookup (podID hostPodData).string).getD "")) pods

def updatePod (podIPAddressMap : PodIPAddressMap) (oldPod newPod : Pod) :
    Option (PodIPAddressMap × List PodID) :=
  if newPod.ns = "kube-system" then some (podIPAddressMap, [])
  else if newPod.ipAddress = "" then some (podIPAddressMap, [])
  else do
    let dataPolicies ← installedPolicies api
    let policies := dataPolicies.foldl (addMatching newPod)
      (dataPolicies.foldl (addMatching oldPod) [])
    let policyPods ← podsOfPolicies api policies
    let pods ← uniquePods order (newPod.id :: policyPods)
    let pods ← hostPods api hostNetwork (Option.map Pod.ipAddress) pods
    return (podIPAddressMap.insert newPod.id.string newPod.ipAddress, pods)

def addPolicy (policy : Policy) : Option (List PodID) := do
  let pods ← api.lookupPodsByNSLabelSelector policy.ns policy.pods
  hostPods api hostNetwork (Option.map Pod.ipAddress) pods

def delPolicy (policy : Policy) : Option (List PodID) := do
  let pods ← api.lookupPodsByNSLabelSelector policy.ns policy.pods
  hostPods api hostNetwork (Option.map Pod.ipAddress) pods

def updatePolicy (oldPolicy newPolicy : Policy) : Option (List PodID) := do
  let oldPods ← api.lookupPodsByNSLabelSelector oldPolicy.ns oldPolicy.pods
  let newPods ← api.lookupPodsByNSLabelSelector newPolicy.ns newPolicy.pods
  let pods ← uniquePods order (oldPods ++ newPods)
  hostPods api hostNetwork (Option.map Pod.ipAddress) pods

/-- The pods that are processed, none if `Process` is not called. -/
def handle (podIPAddressMap : PodIPAddressMap) :
    Notification → Option (PodIPAddressMap × List PodID)
  | .resync _ => api.listAllPods.map (podIPAddressMap, ·)
  | .addPod _ => some (podIPAddressMap, [])
  | .delPod pod => (delPod order api hostNetwork podIPAddressMap pod).map
      (podIPAddressMap, ·)
  | .updatePod oldPod newPod =>
      updatePod order api hostNetwork podIPAddressMap oldPod newPod
  | .addPolicy policy =>
      (addPolicy api hostNetwork policy).map (podIPAddressMap, ·)
  | .delPolicy policy =>
      (delPolicy api hostNetwork policy).map (podIPAddressMap, ·)
  | .updatePolicy oldPolicy newPolicy =>
      (updatePolicy order api hostNetwork oldPolicy newPolicy).map
        (podIPAddressMap, ·)
  | .addNamespace _ => some (podIPAddressMap, [])
  | .delNamespace _ => some (podIPAddressMap, [])
  | .updateNamespace _ _ => some (podIPAddressMap, [])

def processCalls (pods : List PodID) :
    Option (List (PodID × List ContivPolicy)) :=
  pods.mapM fun pod => (processPod api pod).map (pod, ·)

end Handlers

end ContivVPP.Processor
