import ContivVPP.GoMap
import ContivVPP.K8sKeys

/-!
# The policy cache

The cache keeps pods, policies and namespaces in mappings with secondary
indexes.  Selectors are evaluated with the lists of names that an index holds
for a value.  A result `none` stands for a crash of the agent.
-/

namespace ContivVPP.PolicyCache

open K8s GoMap

/-! ## Sets of names -/

section Names

variable (order : RangeOrder String)

def removeDuplicates (el : List String) : List String :=
  order.order el.dedup

def intersect (a b : List String) : List String :=
  b.filter (· ∈ a)

def difference (a b : List String) : List String :=
  b.filter (· ∉ a)

variable {order} {a b : List String} {x : String}

@[simp] theorem mem_removeDuplicates : x ∈ removeDuplicates order a ↔ x ∈ a := by
  rw [removeDuplicates, RangeOrder.mem_order, List.mem_dedup]

@[simp] theorem mem_intersect : x ∈ intersect a b ↔ x ∈ b ∧ x ∈ a := by
  simp [intersect]

@[simp] theorem difference_nil_left : difference [] b = b := by
  simp [difference]

def listNames (order : RangeOrder String) {β : Type*}
    (index : β → String → List String) (mapping : AList fun _ : String => β)
    (field value : String) : List String :=
  order.order
    (((pairs mapping).filter fun e => value ∈ index e.2 field).map Prod.fst)

theorem mem_listNames {β : Type*} {index : β → String → List String}
    {mapping : AList fun _ : String => β} {field value : String} :
    x ∈ listNames order index mapping field value ↔
      ∃ v, mapping.lookup x = some v ∧ value ∈ index v field := by
  rw [listNames, RangeOrder.mem_order, List.mem_map]
  constructor
  · intro h
    obtain ⟨⟨x', v⟩, hmem, rfl⟩ := h
    rw [List.mem_filter, decide_eq_true_eq] at hmem
    exact ⟨v, mem_range (o := .insertion).mp hmem.1, hmem.2⟩
  · intro h
    obtain ⟨v, hlookup, hvalue⟩ := h
    refine ⟨(x, v), ?_, rfl⟩
    rw [List.mem_filter, decide_eq_true_eq]
    exact ⟨mem_range (o := .insertion).mpr hlookup, hvalue⟩

theorem nodup_listNames {β : Type*} {index : β → String → List String}
    {mapping : AList fun _ : String => β} {field value : String} :
    (listNames order index mapping field value).Nodup := by
  have hkeys := range_keys_nodup .insertion mapping
  exact (order.perm _).nodup_iff.mpr
    (hkeys.sublist (List.filter_sublist.map Prod.fst))

end Names

/-! ## The mappings -/

structure Cache where
  configuredPolicies : AList fun _ : String => Policy
  configuredPods : AList fun _ : String => Pod
  configuredNamespaces : AList fun _ : String => K8s.Namespace

def Cache.init : Cache := ⟨∅, ∅, ∅⟩

def nsLabel (ns : String) (label : Label) : String :=
  ns ++ "/" ++ (label.key ++ "/" ++ label.value)

namespace PodIdx

variable (order : RangeOrder String)

def podLabelSelectorKey : String := "podLabelSelectorKey"
def podKeySelectorKey : String := "podKeySelectorKey"
def podNSKeySelectorKey : String := "podNamespaceKey"
def podNSLabelSelectorKey : String := "podNamespaceLabelKey"
def podNamespace : String := "podNamespace"

def indexFunction (pod : Pod) (field : String) : List String :=
  if field = podLabelSelectorKey then
    pod.label.map fun v => v.key ++ "/" ++ v.value
  else if field = podKeySelectorKey then
    removeDuplicates order (pod.label.map fun v => v.key)
  else if field = podNamespace then [pod.ns]
  else if field = podNSLabelSelectorKey then
    pod.label.map fun v => nsLabel pod.ns v
  else if field = podNSKeySelectorKey then
    removeDuplicates order (pod.label.map fun v => pod.ns ++ "/" ++ v.key)
  else []

variable (mapping : AList fun _ : String => Pod)

/-- The parameter shadows the name of the index, so that the namespace is
passed as the index as well. -/
def lookupPodsByNamespace (podNamespace : String) : List String :=
  listNames order (indexFunction order) mapping podNamespace podNamespace

def lookupPodsByNSLabelSelector (podNSLabelSelector : String) : List String :=
  listNames order (indexFunction order) mapping podNSLabelSelectorKey
    podNSLabelSelector

def lookupPodsByNSKey (podNSKeySelector : String) : List String :=
  listNames order (indexFunction order) mapping podNSKeySelectorKey
    podNSKeySelector

end PodIdx

namespace PolicyIdx

def policyPodLabelKey : String := "policyPodLabelKey"
def policyPodNSLabelKey : String := "policyPodNSLabelKey"

/-- The selector of the pods is read without a check for nil. -/
def indexFunction (policy : Policy) : Option (String → List String) :=
  policy.pods.map fun pods field =>
    if field = policyPodLabelKey then
      pods.matchLabel.map fun v => v.key ++ "/" ++ v.value
    else if field = policyPodNSLabelKey then
      pods.matchLabel.map fun v => nsLabel policy.ns v
    else []

def registerPolicy (policyID : String) (data : Policy)
    (mapping : AList fun _ : String => Policy) :
    Option (AList fun _ : String => Policy) :=
  (indexFunction data).map fun _ => mapping.insert policyID data

def lookupPolicyByNSLabelSelector (order : RangeOrder String)
    (mapping : AList fun _ : String => Policy)
    (policyNSLabelSelector : String) : List String :=
  listNames order
    (fun policy field => ((indexFunction policy).map (· field)).getD [])
    mapping policyPodNSLabelKey policyNSLabelSelector

end PolicyIdx

/-! ## Lookups -/

section Lookup

variable (order : RangeOrder String) (c : Cache)

/-- An unknown pod is reported as found, without data. -/
def lookupPod (pod : PodID) : Bool × Option Pod :=
  (true, c.configuredPods.lookup pod.string)

def lookupPolicy (policy : PolicyID) : Bool × Option Policy :=
  (true, c.configuredPolicies.lookup policy.string)

def listAllPods : Option (List PodID) :=
  unstringPodID (order.order c.configuredPods.keys)

def listAllPolicies : Option (List PolicyID) :=
  unstringPolicyID (order.order c.configuredPolicies.keys)

variable (ns : String)

def podsWithLabel (label : Label) : List String :=
  PodIdx.lookupPodsByNSLabelSelector order c.configuredPods (nsLabel ns label)

/-- The loop over the labels after the first one.  Each pass compares only two
neighbours. -/
def intersectNeighbours (prevPodSet newPodSet : List String) :
    List Label → Bool × List String
  | [] => (true, newPodSet)
  | label :: labels =>
      let podSet := podsWithLabel order c ns label
      let tmp := intersect prevPodSet podSet
      if tmp = [] then (false, [])
      else intersectNeighbours podSet tmp labels

def getPodsByNSLabelSelector : List Label → Option (Bool × List String)
  | [] => none
  | [label] => some (true, podsWithLabel order c ns label)
  | label :: labels =>
      some (intersectNeighbours order c ns (podsWithLabel order c ns label) []
        labels)

def constructLabels (key : String) (values : List String) : List Label :=
  values.map fun value => ⟨key, value⟩

structure PodSets where
  inPodSet : List String
  notInPodSet : List String
  existsPodSet : List String
  notExistPodSet : List String
  deriving DecidableEq

inductive Exit where
  | crash
  | notFound
  deriving DecidableEq

def evalExpression (sets : PodSets) (expression : LabelExpression) :
    Except Exit PodSets :=
  let labels := constructLabels expression.key expression.value
  let podNamespaceAll := PodIdx.lookupPodsByNamespace order c.configuredPods ns
  let podsWithKey := PodIdx.lookupPodsByNSKey order c.configuredPods
    (ns ++ "/" ++ expression.key)
  match expression.operator with
  | .isIn =>
      match getPodsByNSLabelSelector order c ns labels with
      | none => .error .crash
      | some (false, _) => .error .notFound
      | some (true, podSet) =>
          .ok { sets with inPodSet := sets.inPodSet ++ podSet }
  | .notIn =>
      match getPodsByNSLabelSelector order c ns labels with
      | none => .error .crash
      | some (false, _) =>
          if podNamespaceAll = [] then .error .notFound
          else .ok { sets with
            notInPodSet := sets.notInPodSet ++ podNamespaceAll }
      | some (true, podSet) =>
          let pods := difference podNamespaceAll podSet
          if sets.notInPodSet ++ pods = [] then .error .notFound
          else .ok { sets with notInPodSet := sets.notInPodSet ++ pods }
  | .exists =>
      if podsWithKey = [] then .error .notFound
      else .ok { sets with existsPodSet := sets.existsPodSet ++ podsWithKey }
  | .doesNotExist =>
      if podsWithKey = [] then
        if podNamespaceAll = [] then .error .notFound
        else .ok { sets with
          notExistPodSet := sets.notExistPodSet ++ podNamespaceAll }
      else
        let pods := difference podNamespaceAll podsWithKey
        if sets.notExistPodSet ++ pods = [] then .error .notFound
        else .ok { sets with notExistPodSet := sets.notExistPodSet ++ pods }

/-- Behind the loop all four sets are computed from the first one.  The
intersections are never nil. -/
def getMatchExpressionPods (expressions : List LabelExpression) :
    Option (Bool × List String) :=
  match expressions.foldlM (evalExpression order c ns) ⟨[], [], [], []⟩ with
  | .error .crash => none
  | .error .notFound => some (false, [])
  | .ok sets =>
      let inPodSet := removeDuplicates order sets.inPodSet
      let notInPodSet := removeDuplicates order inPodSet
      let existsPodSet := removeDuplicates order inPodSet
      let notExistPodSet := removeDuplicates order inPodSet
      let inMatcher := intersect inPodSet notInPodSet
      let existsMatcher := intersect existsPodSet notExistPodSet
      some (true, intersect inMatcher existsMatcher)

def unstringFound : Bool × List String → Option (List PodID)
  | (false, _) => some []
  | (true, pods) => unstringPodID pods

def lookupPodsByNSLabelSelector (podLabelSelector : Option LabelSelector) :
    Option (List PodID) :=
  match podLabelSelector with
  | none =>
      unstringPodID (PodIdx.lookupPodsByNamespace order c.configuredPods ns)
  | some ⟨[], []⟩ => some []
  | some ⟨matchLabels, []⟩ => do
      let found ← getPodsByNSLabelSelector order c ns matchLabels
      unstringFound found
  | some ⟨[], matchExpressions⟩ => do
      let found ← getMatchExpressionPods order c ns matchExpressions
      unstringFound found
  | some ⟨matchLabels, matchExpressions⟩ => do
      let mlPods ← getPodsByNSLabelSelector order c ns matchLabels
      if mlPods.1 then
        let mePods ← getMatchExpressionPods order c ns matchExpressions
        if mePods.1 then unstringPodID (intersect mlPods.2 mePods.2)
        else some []
      else some []

end Lookup

/-! ## Policies of a pod -/

section Policies

variable (order : RangeOrder String)
  (policyOrder : RangeOrder (String × Policy)) (c : Cache)

def copyPolicy (policyMap : AList fun _ : String => Policy)
    (policyID : String) : AList fun _ : String => Policy :=
  match c.configuredPolicies.lookup policyID with
  | some policyData => policyMap.insert policyID policyData
  | none => policyMap

def policiesByLabels (podData : Pod) : AList fun _ : String => Policy :=
  let policyIDs := podData.label.flatMap fun podLabel =>
    PolicyIdx.lookupPolicyByNSLabelSelector order c.configuredPolicies
      (nsLabel podData.ns podLabel)
  policyIDs.foldl (copyPolicy c) ∅

def listPolicy (pod : PodID) (policies : List PolicyID)
    (entry : String × Policy) : Option (List PolicyID) := do
  let podByNS ← lookupPodsByNSLabelSelector order c entry.2.ns entry.2.pods
  (podByNS.filter (· = pod)).foldlM (fun policies _ => do
    let parts ← unstringID entry.1
    return policies ++ [⟨parts.2, parts.1⟩]) policies

def lookupPoliciesByPod (pod : PodID) : Option (List PolicyID) :=
  match c.configuredPods.lookup pod.string with
  | none => some []
  | some podData =>
      (range policyOrder (policiesByLabels order c podData)).foldlM
        (listPolicy order c pod) []

end Policies

end ContivVPP.PolicyCache
