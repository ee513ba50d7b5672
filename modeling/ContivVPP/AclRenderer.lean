import ContivVPP.K8sModel
import ContivVPP.RuleCacheResync

/-!
# The ACL renderer

Contiv rules are rendered into VPP ACLs.  A transaction collects the rules of
interfaces, lets the rule cache work out which lists change, and turns the
changes of non-empty lists into put and delete operations on the ACLs.

An ACL has optional parts, which are `none` where the pointer is nil.  The
ACL that the cache keeps with a list is a value here; the code shares it, but
it only ever replaces its interfaces, and does so before every use.
-/

namespace ContivVPP.AclRenderer

open Net Renderer GoMap RuleCache K8s

/-! ## ACLs -/

inductive AclAction where
  | deny
  | permit
  | reflect
  deriving DecidableEq, Repr

structure PortRange where
  lowerPort : UInt32
  upperPort : UInt32
  deriving DecidableEq, Repr

structure PortRanges where
  sourcePortRange : Option PortRange
  destinationPortRange : Option PortRange
  deriving DecidableEq, Repr

structure TcpRule extends PortRanges where
  tcpFlagsMask : UInt32
  tcpFlagsValue : UInt32
  deriving DecidableEq, Repr

structure IpNetworks where
  sourceNetwork : String
  destinationNetwork : String
  deriving DecidableEq, Repr

-- Of ICMP and other protocols it only matters whether they are there.
structure IpRule where
  ip : Option IpNetworks
  icmp : Bool
  tcp : Option TcpRule
  udp : Option PortRanges
  other : Bool
  deriving DecidableEq, Repr

structure AclMatches where
  ipRule : Option IpRule
  deriving DecidableEq, Repr

structure AclRule where
  ruleName : String
  actions : Option AclAction
  aclMatches : Option AclMatches
  deriving DecidableEq, Repr

structure AclInterfaces where
  ingress : List String
  egress : List String
  deriving DecidableEq, Repr

structure Acl where
  aclName : String
  rules : List AclRule
  interfaces : Option AclInterfaces
  deriving DecidableEq, Repr

/-! ## Rendering -/

def maxPortNum : UInt32 := 65535

def renderPort (port : UInt16) : PortRange :=
  ⟨port.toUInt32, if port = 0 then maxPortNum else port.toUInt32⟩

def renderNetwork (n : IPNet) : String :=
  if n.ip.length > 0 then n.string else ""

def renderRule (rule : ContivRule) : AclRule :=
  let ports : PortRanges :=
    ⟨some (renderPort rule.srcPort), some (renderPort rule.destPort)⟩
  { ruleName := rule.id
    actions := some (if rule.action = .deny then .deny else .reflect)
    aclMatches := some ⟨some
      { ip := some ⟨renderNetwork rule.srcNetwork, renderNetwork rule.destNetwork⟩
        icmp := false
        tcp := if rule.protocol = .tcp then some ⟨ports, 0, 0⟩ else none
        udp := if rule.protocol = .tcp then none else some ports
        other := false }⟩ }

def renderRules (rules : Rules) : List AclRule :=
  (rules.getD []).map renderRule

def renderInterfaces (o : SetOrder String) (interfaces : InterfaceSet) :
    TrafficDirection → AclInterfaces
  | .ingress => ⟨o.order interfaces, []⟩
  | .egress => ⟨[], o.order interfaces⟩

def renderACL (o : SetOrder String) (ruleList : ContivRuleList Acl)
    (direction : TrafficDirection) : Acl :=
  ⟨ruleList.id, renderRules ruleList.rules,
    some (renderInterfaces o ruleList.interfaces direction)⟩

/-! ## Operations -/

inductive Failure where
  | error (message : String)
  | panic
  deriving DecidableEq, Repr

-- A put has the ACL as its value, and a delete has none.
abbrev TxnOp := String × Option Acl

abbrev VppACLs := String → Option Acl

-- The type assertion on `Private`.
def assertACL (priv : Option Acl) : Except Failure Acl :=
  match priv with
  | some acl => .ok acl
  | none => .error .panic

def renderChange (o : SetOrder String) (direction : TrafficDirection)
    (h : Heap Acl) (change : TxnChange) :
    Except Failure (Heap Acl × TxnOp) :=
  let list := h.lists change.list
  if change.previousInterfaces = ∅ then
    let acl := renderACL o list direction
    .ok (h.setPriv change.list (some acl), (acl.aclName, some acl))
  else if list.interfaces ≠ ∅ then do
    let acl ← assertACL list.priv
    let acl := { acl with
      interfaces := some (renderInterfaces o list.interfaces direction) }
    .ok (h.setPriv change.list (some acl), (acl.aclName, some acl))
  else do
    let acl ← assertACL list.priv
    .ok (h, (acl.aclName, none))

def renderChanges (o : SetOrder String) (direction : TrafficDirection)
    (changes : List TxnChange) (s : Heap Acl × List TxnOp) :
    Except Failure (Heap Acl × List TxnOp) :=
  changes.foldlM (fun s change => do
    let res ← renderChange o direction s.1 change
    return (res.1, s.2 ++ [res.2])) s

/-! ## Transactions -/

structure InterfaceConfig where
  ingress : Rules
  egress : Rules

abbrev Config := AList fun _ : String => InterfaceConfig

structure Renderer where
  cache : State Acl
  vpp : VppACLs

structure RenderCall where
  pod : PodID
  ingress : Rules
  egress : Rules

def render (getIfName : PodID → Option String) (config : Config)
    (call : RenderCall) : Config :=
  match getIfName call.pod with
  | some ifName => config.insert ifName ⟨call.ingress, call.egress⟩
  | none => config

-- What the language or the random source leaves open in one commit.
structure CommitChoices where
  config : RangeOrder (String × InterfaceConfig)
  update : String → TrafficDirection → Choices
  render : SetOrder String
  commit : TrafficDirection → SetOrder String

def updateCall (c : CommitChoices) (entry : String × InterfaceConfig) :
    UpdateCall :=
  ⟨entry.1, perDirection entry.2.ingress entry.2.egress, c.update entry.1⟩

def filterEmpty (h : Heap Acl) (changes : List TxnChange) : List TxnChange :=
  changes.filter fun change =>
    ((h.lists change.list).rules.getD []).length > 0

def changesOf (s : State Acl × ContivRuleCacheTxn)
    (direction : TrafficDirection) : List TxnChange :=
  filterEmpty s.1.heap (getChanges s.1.heap (s.2.lists direction)
    (s.1.cache.lists direction))

/-- The second half of `Commit`: render the changes, send them, and save them
in the cache. -/
def renderAndSave (c : CommitChoices) (vpp : VppACLs)
    (s : State Acl × ContivRuleCacheTxn) : Except Failure Renderer :=
  if changesOf s .ingress = [] ∧ changesOf s .egress = [] then
    .ok ⟨s.1, vpp⟩
  else do
    let res ← renderChanges c.render .ingress (changesOf s .ingress)
      (s.1.heap, [])
    let res ← renderChanges c.render .egress (changesOf s .egress) res
    return ⟨commitTxn c.commit ({ s.1 with heap := res.1 }, s.2),
      assignAll res.2 vpp⟩

def commitChanges (c : CommitChoices) (config : Config) (r : Renderer) :
    Except Failure Renderer :=
  renderAndSave c r.vpp (((range c.config config).map (updateCall c)).foldl update
      (r.cache, newTxn))

end ContivVPP.AclRenderer
