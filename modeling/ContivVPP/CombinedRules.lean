import ContivVPP.ContivRule
import ContivVPP.GoMap

/-!
# Ingress rules combined with egress rules

The session stack has local tables for the traffic that leaves a namespace and
one global table for the traffic that enters the host.  Traffic between two
pods of the host never passes the global table, and so the egress rules of the
receiving pod have to be built into the ingress rules of the sending pod.
`getCombinedIngressRules` does that by intersecting sets of ports, one remote
pod and one protocol after the other.
-/

namespace ContivVPP.SessionCache

open Net Renderer GoMap

abbrev Ports := List UInt16

namespace Ports

def add (p : Ports) (port : UInt16) : Ports :=
  if port ∈ p then p else p ++ [port]

def hasExplicit (p : Ports) (port : UInt16) : Bool :=
  decide (port ∈ p)

def has (p : Ports) (port : UInt16) : Bool :=
  p.hasExplicit 0 || p.hasExplicit port

def isSubsetOf (p p2 : Ports) : Bool :=
  if p2.has 0 then true
  else if p.has 0 then false
  else p.all p2.has

def intersection (p p2 : Ports) : Ports :=
  if p.has 0 then p2
  else if p2.has 0 then p
  else p.filter p2.has

end Ports

def portsOf (ports : Ports × Ports) : ProtocolType → Ports
  | .tcp => ports.1
  | .udp => ports.2

structure NamespaceConfig where
  ipAddr : IPNet
  ingress : List ContivRule
  egress : List ContivRule
  deriving DecidableEq, Repr

abbrev Config := AList fun _ : UInt32 => NamespaceConfig

def addAllowedPort (network : ContivRule → IPNet) (ip : IP)
    (ports : Ports × Ports) (rule : ContivRule) : Ports × Ports :=
  if rule.action = .deny then ports
  else if 0 < (network rule).ip.length ∧ ¬ (network rule).contains ip then
    ports
  else
    match rule.protocol with
    | .tcp => (ports.1.add rule.destPort, ports.2)
    | .udp => (ports.1, ports.2.add rule.destPort)

/-- The TCP and the UDP ports that the permitting rules allow for an address
in the given network of the rules. -/
def allowedPorts (network : ContivRule → IPNet) (ip : IP)
    (rules : List ContivRule) : Ports × Ports :=
  rules.foldl (addAllowedPort network ip) ([], [])

def getAllowedEgressPorts (srcIP : IPNet) (egress : List ContivRule) :
    Ports × Ports :=
  allowedPorts ContivRule.srcNetwork srcIP.ip egress

def getAllowedIngressPorts (dstIP : IPNet) (ingress : List ContivRule) :
    Ports × Ports :=
  allowedPorts ContivRule.destNetwork dstIP.ip ingress

-- The identifiers of the two protocols differ: those for UDP leave out the
-- index of the namespace.
def combinedRuleID (nsIndex rmtNsIndex : UInt32) (port : String) :
    ProtocolType → String
  | .tcp => toString nsIndex.toNat ++ "-combined-" ++
      toString rmtNsIndex.toNat ++ "-TCP:" ++ port
  | .udp => "combined-" ++ toString rmtNsIndex.toNat ++ "-UDP:" ++ port

-- For UDP the source code leaves the source network nil; nothing reads it.
def combinedRule (nsIndex rmtNsIndex : UInt32) (rmtIP : IPNet)
    (protocol : ProtocolType) (action : ActionType) (name : String)
    (port : UInt16) : ContivRule :=
  ⟨combinedRuleID nsIndex rmtNsIndex name protocol, action, .any, rmtIP,
    protocol, 0, port⟩

def isReplaced (rmtIP : IPNet) (protocol : ProtocolType)
    (rule : ContivRule) : Bool :=
  rule.protocol == protocol && rule.destNetwork.ip.length != 0 &&
    rule.destNetwork.isHost && ipEqual rule.destNetwork.ip rmtIP.ip

/-- Restrict the traffic of one protocol to one remote namespace to the ports
that are allowed on both sides. -/
def restrict (order : RangeOrder UInt16) (nsIndex rmtNsIndex : UInt32)
    (rmtIP : IPNet) (protocol : ProtocolType) (inPorts egPorts : Ports)
    (rules : List ContivRule) : List ContivRule :=
  if inPorts.isSubsetOf egPorts then rules
  else
    rules.filter (!isReplaced rmtIP protocol ·) ++
      (order.order (inPorts.intersection egPorts)).map (fun port =>
        combinedRule nsIndex rmtNsIndex rmtIP protocol .permit
          (toString port.toNat) port) ++
      [combinedRule nsIndex rmtNsIndex rmtIP protocol .deny "NONE" 0]

/-- The orders of the loops over the config and over the sets of ports. -/
structure CombineOrders where
  config : RangeOrder (UInt32 × NamespaceConfig)
  ports : UInt32 → ProtocolType → RangeOrder UInt16

def combineWith (orders : CombineOrders) (nsIndex : UInt32)
    (nsConfig : NamespaceConfig) (rules : List ContivRule)
    (rmt : UInt32 × NamespaceConfig) : List ContivRule :=
  if rmt.1 = nsIndex then rules
  else if !hasDeny rmt.2.egress then rules
  else
    let eg := getAllowedEgressPorts nsConfig.ipAddr rmt.2.egress
    let ing :=
      if hasDeny nsConfig.ingress then
        getAllowedIngressPorts rmt.2.ipAddr nsConfig.ingress
      else ([0], [0])
    restrict (orders.ports rmt.1 .udp) nsIndex rmt.1 rmt.2.ipAddr .udp ing.2 eg.2
      (restrict (orders.ports rmt.1 .tcp) nsIndex rmt.1 rmt.2.ipAddr .tcp
        ing.1 eg.1 rules)

/-- `getCombinedIngressRules`; the callers ask for namespaces of the config
only. -/
def getCombinedIngressRules (orders : CombineOrders) (config : Config)
    (nsIndex : UInt32) : Option (List ContivRule) := do
  let nsConfig ← config.lookup nsIndex
  return (range orders.config config).foldl
    (combineWith orders nsIndex nsConfig) nsConfig.ingress

end ContivVPP.SessionCache
