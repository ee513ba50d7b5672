import ContivVPP.GenerateRules

/-!
# What the generated rules decide

The policies of a pod select the traffic that is permitted in a direction.
The rules generated from them are evaluated by first match.  They decide as the
policies say for the traffic that has a rule exactly when it is permitted.
-/

namespace ContivVPP.Configurator

open Net K8s Renderer KeyedAppend

/-! ## The meaning of policies -/

/-- The address of the peer, for traffic in a direction seen from the pod. -/
def remoteIP (direction : MatchType) (t : Traffic) : IP :=
  if direction = .ingress then t.srcIP else t.destIP

def podHasIP (lookupPod : LookupPod) (ip : IP) (pod : PodID) : Bool :=
  match lookupPod pod with
  | (true, some data) =>
      match parseIP data.ipAddress with
      | some podIP => ipEqual podIP ip
      | none => false
  | _ => false

def IPBlock.holds (block : IPBlock) (ip : IP) : Bool :=
  block.network.contains ip && block.except.all fun e => !e.contains ip

def Match.l3Holds (lookupPod : LookupPod) (m : Match) (ip : IP) : Bool :=
  (m.pods.isNone && m.ipBlocks.isNone) ||
    (m.pods.getD []).any (podHasIP lookupPod ip) ||
    (m.ipBlocks.getD []).any (IPBlock.holds · ip)

def Match.l4Holds (m : Match) (t : Traffic) : Bool :=
  m.ports.isEmpty || m.ports.any fun port =>
    port.protocol.renderer == t.protocol &&
      (port.number == 0 || port.number == t.destPort)

def permits (lookupPod : LookupPod) (direction : MatchType)
    (policies : List ContivPolicy) (t : Traffic) : Bool :=
  policies.any fun policy =>
    policy.applies direction && policy.matchList.any fun m =>
      m.type == direction && m.l3Holds lookupPod (remoteIP direction t) &&
        m.l4Holds t

def expectedAction (lookupPod : LookupPod) (direction : MatchType)
    (policies : List ContivPolicy) (t : Traffic) : TrafficAction :=
  if policies.any (ContivPolicy.applies direction) then
    if permits lookupPod direction policies t then .allowed else .denied
  else .unmatched

/-- All networks of the policies are in the form `ParseCIDR` gives them. -/
def CanonicalNetworks (policies : List ContivPolicy) : Prop :=
  ∀ policy ∈ policies, ∀ m ∈ policy.matchList, ∀ block ∈ m.ipBlocks.getD [],
    block.network.Canonical ∧ ∀ e ∈ block.except, e.Canonical

instance (policies : List ContivPolicy) :
    Decidable (CanonicalNetworks policies) :=
  inferInstanceAs (Decidable (∀ policy ∈ policies, _))

/-! ## The subnets of the blocks -/

def IPBlock.whole (block : IPBlock) : Bool :=
  block.except.all fun e => !IPNet.overlaps block.network e

def IPBlock.remainder (block : IPBlock) : List IPNet :=
  subtractExcepts id id [block.network] block.except

def IPBlock.Canonical (block : IPBlock) : Prop :=
  block.network.Canonical ∧ ∀ e ∈ block.except, e.Canonical

theorem blockSubnets_of_whole {block : IPBlock} (h : block.Canonical)
    (hwhole : block.whole = true) : blockSubnets block = [.loopVar] := by
  have hcanonical : (NetRef.load block.network .loopVar).Canonical := h.1
  apply subtractExcepts_of_disjoint hcanonical h.2
  simpa [IPBlock.whole, NetRef.load] using hwhole

theorem blockSubnets_of_not_whole {block : IPBlock} (h : block.Canonical)
    (hwhole : ¬ block.whole = true) :
    ∀ s ∈ blockSubnets block, ∃ n, s = NetRef.new n := by
  have hcanonical : (NetRef.load block.network .loopVar).Canonical := h.1
  apply subtractExcepts_alloc_of_overlap hcanonical h.2
  simpa [IPBlock.whole, NetRef.load] using hwhole

theorem map_load_blockSubnets {block : IPBlock} (h : block.Canonical)
    (last : IPNet) :
    (blockSubnets block).map (NetRef.load last) =
      if block.whole then [last] else block.remainder := by
  by_cases hwhole : block.whole = true
  · rw [if_pos hwhole, blockSubnets_of_whole h hwhole]
    rfl
  · have hloads : (blockSubnets block).map (NetRef.load last) =
        (blockSubnets block).map (NetRef.load block.network) := by
      apply List.map_congr_left
      intro s hs
      obtain ⟨n, rfl⟩ := blockSubnets_of_not_whole h hwhole s hs
      rfl
    rw [if_neg hwhole, hloads, blockSubnets,
      map_load_subtractExcepts (fun _ => rfl)]
    rfl

theorem mem_collectSubnets {blocks : List IPBlock} {last : IPBlock}
    (h : ∀ block ∈ blocks, block.Canonical)
    (hlast : blocks.getLast? = some last) {s : IPNet} :
    s ∈ collectSubnets blocks ↔ ∃ block ∈ blocks,
        s ∈ if block.whole then [last.network] else block.remainder := by
  rw [collectSubnets, hlast]
  simp only [List.map_flatMap, List.mem_flatMap]
  refine exists_congr fun block => and_congr_right fun hmem => ?_
  rw [map_load_blockSubnets (h block hmem)]

/-! ## The rules of a match -/

theorem permitRule_matchesTraffic (direction : MatchType) (id : String)
    (network : IPNet) (protocol : Renderer.ProtocolType) (port : UInt16)
    (t : Traffic) :
    (permitRule direction id network protocol port).matchesTraffic t =
      (networkMatches network (remoteIP direction t) &&
        protocol == t.protocol && portMatches port t.destPort) := by
  cases direction <;>
    simp [permitRule, ContivRule.matchesTraffic, remoteIP]

variable {m : Match} {t : Traffic}

theorem exists_mem_portRules_iff {direction : MatchType} {name : String}
    {network : IPNet} :
    (∃ rule ∈ portRules direction name network m.ports,
      rule.matchesTraffic t = true) ↔
      networkMatches network (remoteIP direction t) = true ∧
        m.l4Holds t = true := by
  by_cases hports : m.ports = []
  · have hproto : t.protocol = .tcp ∨ t.protocol = .udp := by
      cases t.protocol <;> simp
    simp only [portRules, hports, if_true, List.mem_cons,
      List.not_mem_nil, or_false, exists_eq_or_imp, exists_eq_left,
      permitRule_matchesTraffic, portMatches_zero, Match.l4Holds]
    rcases hproto with hproto | hproto <;> simp [hproto]
  · simp only [portRules, hports, if_false, List.mem_map,
      exists_exists_and_eq_and, permitRule_matchesTraffic, Match.l4Holds,
      Bool.and_eq_true, List.isEmpty_eq_false_iff.mpr hports,
      Bool.false_or, List.any_eq_true, portMatches]
    constructor
    · rintro ⟨port, hmem, ⟨hnet, hproto⟩, hport⟩
      exact ⟨hnet, port, hmem, hproto, hport⟩
    · rintro ⟨hnet, port, hmem, hproto, hport⟩
      exact ⟨port, hmem, ⟨hnet, hproto⟩, hport⟩

theorem knownPeer_matches_iff {lookupPod : LookupPod} {pod : PodID} {ip : IP}
    (hip : ValidIP ip) :
    (∃ peer, knownPeer lookupPod pod = some peer ∧
      networkMatches peer.ipNet ip = true) ↔
      podHasIP lookupPod ip pod = true := by
  unfold knownPeer podHasIP
  rcases lookupPod pod with ⟨found, data⟩
  cases found with
  | false => simp
  | true =>
      cases data with
      | none => simp
      | some data =>
          have hsubnet :=
            @getOneHostSubnet_matches_iff data.ipAddress ip hip
          by_cases hempty : data.ipAddress = ""
          · have hparse : parseIP "" = none := by decide
            simp [hempty, hparse]
          · have hspec : (match parseIP data.ipAddress with
                | some podIP => ipEqual podIP ip
                | none => false) = true ↔
                ∃ hostIP, parseIP data.ipAddress = some hostIP ∧
                  ipEqual hostIP ip = true := by
              cases parseIP data.ipAddress <;> simp
            simp only [hempty, if_false, Option.map_eq_some_iff]
            rw [hspec, ← hsubnet]
            constructor
            · rintro ⟨_, ⟨n, hn, rfl⟩, hmatch⟩
              exact ⟨n, hn, hmatch⟩
            · rintro ⟨n, hn, hmatch⟩
              exact ⟨_, ⟨n, hn, rfl⟩, hmatch⟩

theorem exists_mem_matchRules_iff {lookupPod : LookupPod}
    {direction : MatchType} {policyID : PolicyID}
    (hip : ValidIP (remoteIP direction t)) :
    (∃ rule ∈ matchRules direction policyID m (m.peers lookupPod),
      rule.matchesTraffic t = true) ↔
      m.l4Holds t = true ∧ (m.matchesAnyPeer = true ∨ (∃ pod ∈ m.pods.getD [],
            podHasIP lookupPod (remoteIP direction t) pod = true) ∨
          ∃ s ∈ collectSubnets (m.ipBlocks.getD []),
            networkMatches s (remoteIP direction t) = true) := by
  have hany : (∃ rule ∈ (if m.matchesAnyPeer then
      portRules direction policyID.string .any m.ports else []),
        rule.matchesTraffic t = true) ↔
      m.matchesAnyPeer = true ∧ m.l4Holds t = true := by
    by_cases hmatch : m.matchesAnyPeer = true
    · rw [if_pos hmatch, exists_mem_portRules_iff]
      simp [hmatch]
    · rw [if_neg hmatch]
      simp [hmatch]
  simp only [matchRules, List.mem_append, List.mem_flatMap, or_and_right,
    exists_or, hany, Match.peers, List.mem_filterMap,
    ← knownPeer_matches_iff hip]
  constructor
  · rintro ((hm | ⟨rule, ⟨peer, ⟨pod, hpod, hknown⟩, hrule⟩, hmatch⟩) |
      ⟨rule, ⟨s, hs, hrule⟩, hmatch⟩)
    · exact ⟨hm.2, Or.inl hm.1⟩
    · have hport := exists_mem_portRules_iff.mp ⟨rule, hrule, hmatch⟩
      exact ⟨hport.2, Or.inr (Or.inl ⟨pod, hpod, peer, hknown, hport.1⟩)⟩
    · have hport := exists_mem_portRules_iff.mp ⟨rule, hrule, hmatch⟩
      exact ⟨hport.2, Or.inr (Or.inr ⟨s, hs, hport.1⟩)⟩
  · rintro ⟨hl4, hm | ⟨pod, hpod, peer, hknown, hmatch⟩ | ⟨s, hs, hmatch⟩⟩
    · exact Or.inl (Or.inl ⟨hm, hl4⟩)
    · obtain ⟨rule, hrule, hrt⟩ :=
        exists_mem_portRules_iff.mpr ⟨hmatch, hl4⟩
      exact Or.inl (Or.inr ⟨rule, ⟨peer, ⟨pod, hpod, hknown⟩, hrule⟩, hrt⟩)
    · obtain ⟨rule, hrule, hrt⟩ :=
        exists_mem_portRules_iff.mpr ⟨hmatch, hl4⟩
      exact Or.inr ⟨rule, ⟨s, hs, hrule⟩, hrt⟩

/-! ## The rules of all policies -/

section Verdict

variable (lookupPod : LookupPod) (direction : MatchType)
  (policies : List ContivPolicy)

def KeptTraffic (t : Traffic) : Prop :=
  ∃ rule, First ContivRule.id (candidateRules lookupPod direction policies)
    rule ∧ rule.matchesTraffic t = true

variable {lookupPod direction policies}

theorem remoteIP_valid (t : Traffic) : ValidIP (remoteIP direction t) := by
  unfold remoteIP
  split
  · exact t.srcValid
  · exact t.destValid

theorem permits_iff : permits lookupPod direction policies t = true ↔
      ∃ policy ∈ policies, ∃ m ∈ policy.matchesOf direction, m.l4Holds t = true ∧
          m.l3Holds lookupPod (remoteIP direction t) = true := by
  simp only [permits, List.any_eq_true, Bool.and_eq_true, beq_iff_eq,
    mem_matchesOf]
  constructor
  · rintro ⟨policy, hpolicy, happlies, m, hm, ⟨htype, hl3⟩, hl4⟩
    exact ⟨policy, hpolicy, m, ⟨happlies, hm, htype⟩, hl4, hl3⟩
  · rintro ⟨policy, hpolicy, m, ⟨happlies, hm, htype⟩, hl4, hl3⟩
    exact ⟨policy, hpolicy, happlies, m, hm, ⟨htype, hl3⟩, hl4⟩

theorem l3Holds_iff {ip : IP} : m.l3Holds lookupPod ip = true ↔
      m.matchesAnyPeer = true ∨
        (∃ pod ∈ m.pods.getD [], podHasIP lookupPod ip pod = true) ∨
        ∃ block ∈ m.ipBlocks.getD [], block.holds ip = true := by
  simp only [Match.l3Holds, Match.matchesAnyPeer, Bool.or_eq_true,
    List.any_eq_true, or_assoc]

theorem CanonicalNetworks.blocks (h : CanonicalNetworks policies)
    {policy : ContivPolicy} (hpolicy : policy ∈ policies)
    (hm : m ∈ policy.matchesOf direction) :
    ∀ block ∈ m.ipBlocks.getD [], block.Canonical :=
  h policy hpolicy m (mem_matchesOf.mp hm).2.1

theorem exists_mem_appendRules_iff :
    (∃ rule ∈ appendRules [] (candidateRules lookupPod direction policies),
      rule.matchesTraffic t = true) ↔
      KeptTraffic lookupPod direction policies t := by
  simp [appendRules_eq, mem_appendAllNew, KeptTraffic]

theorem action_of_mem_portRules {name : String} {network : IPNet}
    {ports : List Port} {rule : ContivRule}
    (hrule : rule ∈ portRules direction name network ports) :
    rule.action = .permit := by
  unfold portRules at hrule
  split at hrule
  next =>
    simp only [List.mem_cons, List.not_mem_nil, or_false] at hrule
    rcases hrule with rfl | rfl <;> rfl
  next =>
    rw [List.mem_map] at hrule
    obtain ⟨port, _, rfl⟩ := hrule
    rfl

theorem action_of_mem_appendRules {rule : ContivRule} (hrule : rule ∈
      appendRules [] (candidateRules lookupPod direction policies)) :
    rule.action = .permit := by
  have hfirst := (mem_appendAllNew.mp hrule).resolve_left (by simp)
  obtain ⟨policy, _, m, _, hm⟩ := mem_candidateRules.mp hfirst.1.mem
  unfold matchRules at hm
  simp only [List.mem_append, List.mem_flatMap] at hm
  rcases hm with (hany | ⟨peer, _, hpeer⟩) | ⟨subnet, _, hsubnet⟩
  · split at hany
    next => exact action_of_mem_portRules hany
    next => simp at hany
  · exact action_of_mem_portRules hpeer
  · exact action_of_mem_portRules hsubnet

theorem testTraffic_denyTheRest (t : Traffic) :
    testTraffic denyTheRest t = .denied := by
  cases hprotocol : t.protocol <;>
    simp [testTraffic, denyTheRest, denyRule, ContivRule.matchesTraffic,
      hprotocol, ActionType.trafficAction]

theorem applies_of_kept (hkept : KeptTraffic lookupPod direction policies t) :
    policies.any (ContivPolicy.applies direction) = true := by
  obtain ⟨rule, hfirst, _⟩ := hkept
  obtain ⟨policy, hpolicy, m, hm, _⟩ := mem_candidateRules.mp hfirst.mem
  exact List.any_eq_true.mpr ⟨policy, hpolicy, (mem_matchesOf.mp hm).1⟩

theorem permits_of_allowsAll (hall : (policies.any fun policy =>
      (policy.matchesOf direction).any Match.allowsAll) = true) :
    permits lookupPod direction policies t = true := by
  simp only [List.any_eq_true, Match.allowsAll, Bool.and_eq_true,
    decide_eq_true_eq] at hall
  obtain ⟨policy, hpolicy, m, hm, hany, hports⟩ := hall
  refine permits_iff.mpr ⟨policy, hpolicy, m, hm, ?_, ?_⟩
  · simp [Match.l4Holds, hports]
  · exact l3Holds_iff.mpr (Or.inl hany)

theorem testTraffic_eq_expected_iff (t : Traffic) : testTraffic
        (appendRules [] (candidateRules lookupPod direction policies) ++
          if policies.any (ContivPolicy.applies direction) &&
              !policies.any fun policy =>
                (policy.matchesOf direction).any Match.allowsAll
          then denyTheRest else []) t =
        expectedAction lookupPod direction policies t ↔
      (KeptTraffic lookupPod direction policies t ↔
        permits lookupPod direction policies t = true) := by
  rw [testTraffic_append_of_permit fun _ => action_of_mem_appendRules]
  by_cases hkept : KeptTraffic lookupPod direction policies t
  · rw [if_pos (exists_mem_appendRules_iff.mpr hkept), expectedAction,
      if_pos (applies_of_kept hkept)]
    cases permits lookupPod direction policies t <;> simp [hkept]
  · rw [if_neg (mt exists_mem_appendRules_iff.mp hkept)]
    have hnone : testTraffic [] t = .unmatched := rfl
    cases happlies : policies.any (ContivPolicy.applies direction) with
    | false =>
        have hpermits : ¬ permits lookupPod direction policies t = true := by
          intro hpermits
          obtain ⟨policy, hpolicy, m, hm, _⟩ := permits_iff.mp hpermits
          have := List.any_eq_true.mpr ⟨policy, hpolicy, (mem_matchesOf.mp hm).1⟩
          rw [happlies] at this
          simp at this
        simp [expectedAction, happlies, hkept, hpermits, hnone]
    | true =>
        cases hall : policies.any fun policy =>
            (policy.matchesOf direction).any Match.allowsAll with
        | true =>
            simp [expectedAction, happlies, hkept, hnone,
              permits_of_allowsAll hall]
        | false =>
            cases hpermits : permits lookupPod direction policies t <;>
              simp [expectedAction, happlies, hkept, hpermits,
                testTraffic_denyTheRest]

end Verdict

end ContivVPP.Configurator
