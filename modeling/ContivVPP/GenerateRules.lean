import ContivVPP.SubtractSubnet
import ContivVPP.KeyedAppend

/-!
# Generating rules from policies

`PolicyConfiguratorTxn.generateRules` turns the policies of a pod into the
rules of one direction.  Every peer of a match is combined with every port,
and traffic that no policy permits is denied by two rules at the end.

The subnets of IP blocks are collected as pointers.  A block that loses
nothing to its exceptions is represented by a pointer to the loop variable,
which holds the last block of the match by the time the rules are made.
-/

namespace ContivVPP.Configurator

open Net K8s Renderer KeyedAppend

/-- `LookupPod` of the policy cache: whether the pod is found, and its data,
where `none` is the nil pointer. -/
abbrev LookupPod := PodID → Bool × Option Pod

structure PeerPod where
  id : PodID
  ipNet : IPNet
  deriving DecidableEq, Repr

/-- The peers with a usable address.  The result is `none` if nil data of a
pod are dereferenced. -/
def collectPeers (lookupPod : LookupPod) : List PodID → Option (List PeerPod)
  | [] => some []
  | peer :: rest =>
      match lookupPod peer with
      | (false, _) => collectPeers lookupPod rest
      | (true, none) => none
      | (true, some peerData) =>
          if peerData.ipAddress = "" then collectPeers lookupPod rest
          else
            match getOneHostSubnet peerData.ipAddress with
            | none => collectPeers lookupPod rest
            | some peerIPNet =>
                (collectPeers lookupPod rest).map (⟨peer, peerIPNet⟩ :: ·)

/-- A pointer to a network: to the loop variable over the blocks, or to a
network that `subtractSubnet` has allocated. -/
inductive NetRef where
  | loopVar
  | new (n : IPNet)
  deriving DecidableEq, Repr

def NetRef.load (loopVar : IPNet) : NetRef → IPNet
  | .loopVar => loopVar
  | .new n => n

def blockSubnets (block : IPBlock) : List NetRef :=
  subtractExcepts (NetRef.load block.network) .new [.loopVar] block.except

/-- The networks behind `allSubnets` once the loop over the blocks is done. -/
def collectSubnets (blocks : List IPBlock) : List IPNet :=
  match blocks.getLast? with
  | none => []
  | some last =>
      (blocks.flatMap blockSubnets).map (NetRef.load last.network)

-- Directions are those of the pod: the peer of ingress traffic is its source.
def permitRule (direction : MatchType) (id : String) (network : IPNet)
    (protocol : Renderer.ProtocolType) (port : UInt16) : ContivRule where
  id := id
  action := .permit
  srcNetwork := if direction = .ingress then network else .any
  destNetwork := if direction = .ingress then .any else network
  protocol := protocol
  srcPort := 0
  destPort := port

def portRules (direction : MatchType) (name : String) (network : IPNet)
    (ports : List Port) : List ContivRule :=
  if ports = [] then
    [permitRule direction (name ++ "-TCP:ANY") network .tcp 0,
      permitRule direction (name ++ "-UDP:ANY") network .udp 0]
  else
    ports.map fun port =>
      permitRule direction (name ++ "-" ++ port.string) network
        port.protocol.renderer port.number

def Match.matchesAnyPeer (m : Match) : Bool :=
  m.pods.isNone && m.ipBlocks.isNone

def matchRules (direction : MatchType) (policyID : PolicyID) (m : Match)
    (peers : List PeerPod) : List ContivRule :=
  (if m.matchesAnyPeer then
    portRules direction policyID.string .any m.ports else []) ++
  (peers.flatMap fun peer =>
    portRules direction (policyID.string ++ "-" ++ peer.id.string)
      peer.ipNet m.ports) ++
  (collectSubnets (m.ipBlocks.getD [])).flatMap fun subnet =>
    portRules direction (policyID.string ++ "-" ++ subnet.string)
      subnet m.ports

def appendRule : List ContivRule → ContivRule → List ContivRule :=
  appendNew ContivRule.id

def appendRules (rules newRules : List ContivRule) : List ContivRule :=
  newRules.foldl appendRule rules

theorem appendRules_eq (rules newRules : List ContivRule) :
    appendRules rules newRules = appendAllNew ContivRule.id rules newRules := rfl

structure GenState where
  rules : List ContivRule
  hasPolicy : Bool
  allAllowed : Bool

def ContivPolicy.applies (direction : MatchType) (policy : ContivPolicy) : Bool :=
  !((policy.type == .ingress && direction == .egress) ||
    (policy.type == .egress && direction == .ingress))

def generateMatch (lookupPod : LookupPod) (direction : MatchType)
    (policyID : PolicyID) (s : GenState) (m : Match) : Option GenState :=
  if m.type ≠ direction then some s
  else do
    let peers ← collectPeers lookupPod (m.pods.getD [])
    return { s with
      rules := appendRules s.rules (matchRules direction policyID m peers)
      allAllowed :=
        s.allAllowed || (m.matchesAnyPeer && decide (m.ports = [])) }

def generatePolicy (lookupPod : LookupPod) (direction : MatchType)
    (s : GenState) (policy : ContivPolicy) : Option GenState :=
  if policy.applies direction then
    policy.matchList.foldlM (generateMatch lookupPod direction policy.id)
      { s with hasPolicy := true }
  else some s

def denyRule (id : String) (protocol : Renderer.ProtocolType) : ContivRule :=
  ⟨id, .deny, .any, .any, protocol, 0, 0⟩

def denyTheRest : List ContivRule :=
  [denyRule "TCP:NONE" .tcp, denyRule "UDP:NONE" .udp]

/-- `generateRules`; `none` is a nil pointer dereference. -/
def generateRules (lookupPod : LookupPod) (direction : MatchType)
    (policies : List ContivPolicy) : Option (List ContivRule) := do
  let s ← policies.foldlM (generatePolicy lookupPod direction) ⟨[], false, false⟩
  return if s.hasPolicy && !s.allAllowed then
    appendRules s.rules denyTheRest else s.rules

/-! ## The loops in closed form -/

/-- The contract of `LookupPod`: a pod that is found has data. -/
def LookupPod.Sound (lookupPod : LookupPod) : Prop :=
  ∀ pod, (lookupPod pod).1 = true → (lookupPod pod).2.isSome = true

def knownPeer (lookupPod : LookupPod) (peer : PodID) : Option PeerPod :=
  match lookupPod peer with
  | (true, some peerData) =>
      if peerData.ipAddress = "" then none
      else (getOneHostSubnet peerData.ipAddress).map (⟨peer, ·⟩)
  | _ => none

def Match.peers (lookupPod : LookupPod) (m : Match) : List PeerPod :=
  (m.pods.getD []).filterMap (knownPeer lookupPod)

theorem collectPeers_eq {lookupPod : LookupPod} (h : lookupPod.Sound)
    (pods : List PodID) :
    collectPeers lookupPod pods =
      some (pods.filterMap (knownPeer lookupPod)) := by
  induction pods with
  | nil => rfl
  | cons peer pods ih =>
      have hpeer := h peer
      rcases hlookup : lookupPod peer with ⟨found, data⟩
      rw [hlookup] at hpeer
      rw [collectPeers, hlookup, List.filterMap_cons]
      cases found with
      | false => simp [knownPeer, hlookup, ih]
      | true =>
          cases data with
          | none => simp at hpeer
          | some data =>
              by_cases hempty : data.ipAddress = ""
              · simp [knownPeer, hlookup, hempty, ih]
              · cases hsubnet : getOneHostSubnet data.ipAddress <;>
                  simp [knownPeer, hlookup, hempty, hsubnet, ih]

def ContivPolicy.matchesOf (direction : MatchType) (policy : ContivPolicy) :
    List Match :=
  if policy.applies direction then
    policy.matchList.filter (·.type = direction) else []

theorem mem_matchesOf {direction : MatchType} {policy : ContivPolicy}
    {m : Match} : m ∈ policy.matchesOf direction ↔
      policy.applies direction = true ∧ m ∈ policy.matchList ∧
        m.type = direction := by
  unfold ContivPolicy.matchesOf
  split_ifs with happlies <;> simp [happlies]

def candidateRules (lookupPod : LookupPod) (direction : MatchType)
    (policies : List ContivPolicy) : List ContivRule :=
  policies.flatMap fun policy =>
    (policy.matchesOf direction).flatMap fun m =>
      matchRules direction policy.id m (m.peers lookupPod)

def Match.allowsAll (m : Match) : Bool :=
  m.matchesAnyPeer && decide (m.ports = [])

section Loops

variable {lookupPod : LookupPod} {direction : MatchType}

theorem foldlM_generateMatch (h : lookupPod.Sound) (policyID : PolicyID)
    (matchList : List Match) (s : GenState) :
    matchList.foldlM (generateMatch lookupPod direction policyID) s =
      some { s with
        rules := appendRules s.rules
          ((matchList.filter (·.type = direction)).flatMap fun m =>
            matchRules direction policyID m (m.peers lookupPod))
        allAllowed := s.allAllowed ||
          (matchList.filter (·.type = direction)).any Match.allowsAll } := by
  induction matchList generalizing s with
  | nil => simp [appendRules_eq, appendAllNew]
  | cons m matchList ih =>
      rw [List.foldlM_cons]
      by_cases htype : m.type = direction
      · rw [generateMatch, if_neg (not_not.mpr htype), collectPeers_eq h]
        simp only [Option.pure_def, Option.bind_eq_bind, Option.bind_some,
          ih, List.filter_cons, htype, decide_true, if_true,
          List.flatMap_cons, List.any_cons]
        simp only [appendRules_eq, appendAllNew_append, Match.allowsAll,
          Bool.or_assoc]
        rfl
      · rw [generateMatch, if_pos htype]
        simp only [Option.bind_eq_bind, Option.bind_some, ih,
          List.filter_cons, htype, decide_false, Bool.false_eq_true,
          if_false]

theorem generatePolicy_eq (h : lookupPod.Sound) (policy : ContivPolicy)
    (s : GenState) :
    generatePolicy lookupPod direction s policy = some {
        rules := appendRules s.rules
          ((policy.matchesOf direction).flatMap fun m =>
            matchRules direction policy.id m (m.peers lookupPod))
        hasPolicy := s.hasPolicy || policy.applies direction
        allAllowed := s.allAllowed ||
          (policy.matchesOf direction).any Match.allowsAll } := by
  unfold generatePolicy ContivPolicy.matchesOf
  by_cases happlies : policy.applies direction = true
  · simp [happlies, foldlM_generateMatch h]
  · rw [Bool.not_eq_true] at happlies
    simp [happlies, appendRules_eq, appendAllNew]

theorem foldlM_generatePolicy (h : lookupPod.Sound)
    (policies : List ContivPolicy) (s : GenState) :
    policies.foldlM (generatePolicy lookupPod direction) s = some {
        rules := appendRules s.rules (candidateRules lookupPod direction policies)
        hasPolicy := s.hasPolicy || policies.any (ContivPolicy.applies direction)
        allAllowed := s.allAllowed || policies.any fun policy =>
          (policy.matchesOf direction).any Match.allowsAll } := by
  induction policies generalizing s with
  | nil => simp [candidateRules, appendRules_eq, appendAllNew]
  | cons policy policies ih =>
      rw [List.foldlM_cons, generatePolicy_eq h]
      simp only [Option.bind_eq_bind, Option.bind_some, ih, candidateRules,
        List.flatMap_cons, appendRules_eq, appendAllNew_append,
        List.any_cons, Bool.or_assoc]

end Loops

-- The identifiers of permitting rules start with that of a policy, which has
-- a slash in it.
variable {rule : ContivRule}

theorem slash_mem_id_of_mem_portRules {direction : MatchType} {name : String}
    {network : IPNet} {ports : List Port} (hname : '/' ∈ name.toList)
    (hrule : rule ∈ portRules direction name network ports) :
    '/' ∈ rule.id.toList := by
  unfold portRules at hrule
  split at hrule
  next =>
    simp only [List.mem_cons, List.not_mem_nil, or_false] at hrule
    rcases hrule with rfl | rfl <;> simp [permitRule, hname]
  next =>
    rw [List.mem_map] at hrule
    obtain ⟨port, _, rfl⟩ := hrule
    simp [permitRule, hname]

theorem slash_mem_policyID (id : PolicyID) : '/' ∈ id.string.toList := by
  simp [PolicyID.string]

theorem slash_mem_id_of_mem_matchRules {direction : MatchType}
    {policyID : PolicyID} {m : Match} {peers : List PeerPod}
    (hrule : rule ∈ matchRules direction policyID m peers) :
    '/' ∈ rule.id.toList := by
  have hid := slash_mem_policyID policyID
  unfold matchRules at hrule
  simp only [List.mem_append, List.mem_flatMap] at hrule
  rcases hrule with (hany | ⟨peer, _, hpeer⟩) | ⟨subnet, _, hsubnet⟩
  · split at hany
    next => exact slash_mem_id_of_mem_portRules hid hany
    next => simp at hany
  · exact slash_mem_id_of_mem_portRules (by simp [hid]) hpeer
  · exact slash_mem_id_of_mem_portRules (by simp [hid]) hsubnet

theorem mem_candidateRules {lookupPod : LookupPod} {direction : MatchType}
    {policies : List ContivPolicy} :
    rule ∈ candidateRules lookupPod direction policies ↔
      ∃ policy ∈ policies, ∃ m ∈ policy.matchesOf direction,
        rule ∈ matchRules direction policy.id m (m.peers lookupPod) := by
  simp [candidateRules, List.mem_flatMap]

-- No denying rule has the identifier of a permitting one.
theorem id_ne_of_mem_denyTheRest {lookupPod : LookupPod}
    {direction : MatchType} {policies : List ContivPolicy} {deny : ContivRule}
    (hrule : rule ∈ candidateRules lookupPod direction policies)
    (hdeny : deny ∈ denyTheRest) : rule.id ≠ deny.id := by
  intro heq
  obtain ⟨policy, _, m, _, hm⟩ := mem_candidateRules.mp hrule
  have hslash := slash_mem_id_of_mem_matchRules hm
  rw [heq] at hslash
  simp only [denyTheRest, List.mem_cons, List.not_mem_nil, or_false] at hdeny
  rcases hdeny with rfl | rfl
  · exact absurd hslash (by decide)
  · exact absurd hslash (by decide)

/-- `generateRules` in closed form: what comes first with its identifier among
the candidates, followed by the two denying rules if they are needed. -/
theorem generateRules_eq {lookupPod : LookupPod} (h : lookupPod.Sound)
    (direction : MatchType) (policies : List ContivPolicy) :
    generateRules lookupPod direction policies =
      some (appendRules [] (candidateRules lookupPod direction policies) ++
        if policies.any (ContivPolicy.applies direction) &&
            !policies.any fun policy =>
              (policy.matchesOf direction).any Match.allowsAll
        then denyTheRest else []) := by
  have hdeny : appendRules
      (appendRules [] (candidateRules lookupPod direction policies)) denyTheRest =
      appendRules [] (candidateRules lookupPod direction policies) ++
        denyTheRest := by
    apply appendAllNew_of_new (by decide)
    intro rule hrule other hother
    have hother' := (mem_appendAllNew.mp hother).resolve_left (by simp)
    exact id_ne_of_mem_denyTheRest hother'.1.mem hrule
  rw [generateRules, foldlM_generatePolicy h]
  simp only [Option.pure_def, Option.bind_eq_bind, Option.bind_some,
    Bool.false_or]
  split_ifs with hcond
  · rw [hdeny]
  · rw [List.append_nil]

end ContivVPP.Configurator
