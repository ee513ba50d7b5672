import ContivVPP.GoMap
import ContivVPP.K8sModel

/-!
# The reflection of network policies

The policy reflector converts network policies from the form of the Kubernetes
API into the form of the data store, from which the agents read them.  Labels
are maps in the API and lists in the store, so the orders of the loops over
them are left open.
-/

namespace ContivVPP.PolicyReflector

open GoMap K8s

/-! ## Network policies of the API -/

abbrev Labels := AList fun _ : String => String

inductive SelectorOperator where
  | isIn
  | notIn
  | exists
  | doesNotExist
  | other (text : String)
  deriving DecidableEq, Repr

structure Requirement where
  key : String
  operator : SelectorOperator
  values : List String
  deriving DecidableEq, Repr

structure Selector where
  matchLabels : Labels
  matchExpressions : List Requirement

inductive Protocol where
  | tcp
  | udp
  | other (text : String)
  deriving DecidableEq, Repr

inductive IntOrStringType where
  | int
  | string
  deriving DecidableEq, Repr

structure IntOrString where
  type : IntOrStringType
  intVal : ℤ
  strVal : String
  deriving DecidableEq, Repr

structure NetworkPolicyPort where
  protocol : Option Protocol
  port : Option IntOrString
  deriving DecidableEq, Repr

structure NetworkPolicyPeer where
  podSelector : Option Selector
  namespaceSelector : Option Selector
  ipBlock : Option IPBlock

-- The peers of an ingress rule are its `From`, those of an egress rule `To`.
structure NetworkPolicyRule where
  ports : List NetworkPolicyPort
  peers : List NetworkPolicyPeer

inductive PolicyTypeText where
  | ingress
  | egress
  | other (text : String)
  deriving DecidableEq, Repr

structure NetworkPolicy where
  name : String
  ns : String
  podSelector : Selector
  policyTypes : List PolicyTypeText
  ingress : List NetworkPolicyRule
  egress : List NetworkPolicyRule

/-! ## Conversions -/

def operatorToProto : SelectorOperator → Operator
  | .isIn => .isIn
  | .notIn => .notIn
  | .exists => .exists
  | .doesNotExist => .doesNotExist
  | .other _ => .isIn

def labelSelectorToProto (o : RangeOrder (String × String))
    (selector : Selector) : LabelSelector where
  matchLabel := (range o selector.matchLabels).map fun label =>
    ⟨label.1, label.2⟩
  matchExpression := selector.matchExpressions.map fun expression =>
    ⟨expression.key, operatorToProto expression.operator, expression.values⟩

def protocolToProto : Option Protocol → PortProtocol
  | some .udp => .udp
  | _ => .tcp

def portRefToProto (port : IntOrString) : PortNameOrNumber :=
  match port.type with
  | .int => ⟨.number, port.intVal, ""⟩
  | .string => ⟨.name, 0, port.strVal⟩

def portsToProto (ports : List NetworkPolicyPort) : List K8s.Port :=
  ports.map fun port =>
    ⟨protocolToProto port.protocol, port.port.map portRefToProto⟩

abbrev LabelOrders := List ℕ → RangeOrder (String × String)

section Policy

variable (o : LabelOrders)

def peersToProto (place : List ℕ) (peers : List NetworkPolicyPeer) : List Peer :=
  peers.mapIdx fun i peer =>
    match peer.podSelector, peer.namespaceSelector with
    | some selector, _ =>
        ⟨some (labelSelectorToProto (o (place ++ [i])) selector), none, none⟩
    | none, some selector =>
        ⟨none, some (labelSelectorToProto (o (place ++ [i])) selector), none⟩
    | none, none => ⟨none, none, peer.ipBlock⟩

def rulesToProto (place : List ℕ) (rules : List NetworkPolicyRule) : List Rule :=
  rules.mapIdx fun i rule =>
    ⟨portsToProto rule.ports, peersToProto o (place ++ [i]) rule.peers⟩

def policyTypeToProto (policyTypes : List PolicyTypeText) : PolicyType :=
  let ingress := policyTypes.count .ingress
  let egress := policyTypes.count .egress
  if 0 < ingress ∧ 0 < egress then .ingressAndEgress
  else if 0 < ingress then .ingress
  else if 0 < egress then .egress
  else .default

def policyToProto (policy : NetworkPolicy) : Policy where
  name := policy.name
  ns := policy.ns
  pods := some (labelSelectorToProto (o [0]) policy.podSelector)
  policyType := policyTypeToProto policy.policyTypes
  ingressRule := rulesToProto o [1] policy.ingress
  egressRule := rulesToProto o [2] policy.egress

end Policy

/-! ## Ports -/

def NetworkPolicyPort.InRange (port : NetworkPolicyPort) : Prop :=
  ∀ ref, port.port = some ref → ref.type = .int →
    0 < ref.intVal ∧ ref.intVal < 65536

def NetworkPolicy.PortsInRange (policy : NetworkPolicy) : Prop :=
  ∀ rule ∈ policy.ingress ++ policy.egress, ∀ port ∈ rule.ports, port.InRange

/-- Numbers are taken over, and ports with a name get no number, whatever the
value that does not count is. -/
theorem portsToProto_valid {ports : List NetworkPolicyPort}
    (h : ∀ port ∈ ports, port.InRange) :
    ∀ port ∈ portsToProto ports, ∀ ref, port.port = some ref →
      (ref.type = .number → 0 < ref.number ∧ ref.number < 65536) ∧
        (ref.type = .name → ref.number = 0) := by
  intro port hport ref href
  obtain ⟨apiPort, hmem, rfl⟩ := List.mem_map.mp hport
  obtain ⟨apiRef, hapiRef, rfl⟩ := Option.map_eq_some_iff.mp href
  unfold portRefToProto
  cases htype : apiRef.type with
  | int => exact ⟨fun _ => h apiPort hmem apiRef hapiRef htype, nofun⟩
  | string => exact ⟨nofun, fun _ => rfl⟩

theorem mem_rulesToProto {o : LabelOrders} {place : List ℕ}
    {rules : List NetworkPolicyRule} {rule : Rule}
    (h : rule ∈ rulesToProto o place rules) :
    ∃ apiRule ∈ rules, rule.port = portsToProto apiRule.ports := by
  obtain ⟨i, hi, rfl⟩ := List.mem_mapIdx.mp h
  exact ⟨rules[i], List.getElem_mem hi, rfl⟩

theorem policyToProto_ports {o : LabelOrders} {policy : NetworkPolicy}
    {rule : Rule} (h : rule ∈ (policyToProto o policy).ingressRule ++
      (policyToProto o policy).egressRule) :
    ∃ apiRule ∈ policy.ingress ++ policy.egress,
      rule.port = portsToProto apiRule.ports := by
  rcases List.mem_append.mp h with h | h
  · obtain ⟨apiRule, hmem, hports⟩ := mem_rulesToProto h
    exact ⟨apiRule, List.mem_append_left _ hmem, hports⟩
  · obtain ⟨apiRule, hmem, hports⟩ := mem_rulesToProto h
    exact ⟨apiRule, List.mem_append_right _ hmem, hports⟩

end ContivVPP.PolicyReflector
