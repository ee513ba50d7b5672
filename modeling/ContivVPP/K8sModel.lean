import ContivVPP.NetText

/-!
# Pods and network policies

The data model of the reflected Kubernetes state: identifiers, pods with their
labels, and network policies.  Optional sub-messages are `Option`s whose
`none` is the nil pointer.  Fields that no policy code reads (containers, the
labels of a policy, the host address of a pod) are left out.
-/

namespace ContivVPP.K8s

structure PodID where
  name : String
  ns : String
  deriving DecidableEq, Repr

structure PolicyID where
  name : String
  ns : String
  deriving DecidableEq, Repr

def PodID.string (id : PodID) : String :=
  id.ns ++ "/" ++ id.name

def PolicyID.string (id : PolicyID) : String :=
  id.ns ++ "/" ++ id.name

structure Label where
  key : String
  value : String
  deriving DecidableEq, Repr

structure Pod where
  name : String
  ns : String
  label : List Label
  ipAddress : String
  deriving DecidableEq, Repr

def Pod.id (pod : Pod) : PodID :=
  ⟨pod.name, pod.ns⟩

inductive Operator where
  | isIn
  | notIn
  | exists
  | doesNotExist
  deriving DecidableEq, Repr

structure LabelExpression where
  key : String
  operator : Operator
  value : List String
  deriving DecidableEq, Repr

structure LabelSelector where
  matchLabel : List Label
  matchExpression : List LabelExpression
  deriving DecidableEq, Repr

inductive PolicyType where
  | default
  | ingress
  | egress
  | ingressAndEgress
  deriving DecidableEq, Repr

inductive PortProtocol where
  | tcp
  | udp
  deriving DecidableEq, Repr

inductive PortRefType where
  | number
  | name
  deriving DecidableEq, Repr

structure PortNameOrNumber where
  type : PortRefType
  number : ℤ
  name : String
  deriving DecidableEq, Repr

structure Port where
  protocol : PortProtocol
  port : Option PortNameOrNumber
  deriving DecidableEq, Repr

structure IPBlock where
  cidr : String
  except : List String
  deriving DecidableEq, Repr

structure Peer where
  pods : Option LabelSelector
  namespaces : Option LabelSelector
  ipBlock : Option IPBlock
  deriving DecidableEq, Repr

-- An ingress rule lists its peers under `from`, an egress rule under `to`.
structure Rule where
  port : List Port
  peer : List Peer
  deriving DecidableEq, Repr

structure Policy where
  name : String
  ns : String
  pods : Option LabelSelector
  policyType : PolicyType
  ingressRule : List Rule
  egressRule : List Rule
  deriving DecidableEq, Repr

def Policy.id (policy : Policy) : PolicyID :=
  ⟨policy.name, policy.ns⟩

end ContivVPP.K8s
