import Mathlib.Data.List.ReduceOption
import ContivVPP.GenerateRulesVerdict
import ContivVPP.PolicyProcessor
import ContivVPP.PolicyReflector

/-!
# What the translation of policies preserves

The Contiv policies of a pod should mean the same as the network policies that
select it.  The lookups of the cache are assumed to follow the data model here,
so that only the translation counts.  It loses the selectors of namespaces, the
names of ports and the egress part of a policy without a type, and it crashes
on ports that are left open and on texts that are not networks.
-/

namespace ContivVPP.Processor

open GoMap K8s Net Renderer Configurator PolicyCache PartialLoops

/-! ## Lookups that follow the data model -/

def Assigned (c : Cache) (pod : Pod) (policy : Policy) : Prop :=
  ∃ selector, c.HasPolicy pod.ns policy selector ∧ selector.Selects pod.label

structure Follows (api : PolicyCacheAPI) (c : Cache) : Prop where
  pod : ∀ pod, c.HasPod pod.ns pod → api.lookupPod pod.id = (true, some pod)
  pods : ∀ ns selector, ∃ ids,
    api.lookupPodsByNSLabelSelector ns selector = some ids ∧
      ∀ id, id ∈ ids ↔ ∃ s, selector = some s ∧ ∃ pod, c.HasPod ns pod ∧
        s.Selects pod.label ∧ id = pod.id
  policy : ∀ ns policy selector, c.HasPolicy ns policy selector →
    api.lookupPolicy policy.id = (true, some policy)
  policies : ∀ pod, c.HasPod pod.ns pod → ∃ ids,
    api.lookupPoliciesByPod pod.id = some ids ∧ ids.Nodup ∧
      ∀ id, id ∈ ids ↔ ∃ policy, Assigned c pod policy ∧ id = policy.id

def PolicyCacheAPI.ideal (c : Cache) : PolicyCacheAPI where
  lookupPod id :=
    match c.configuredPods.lookup id.string with
    | some pod => (true, some pod)
    | none => (false, none)
  lookupPodsByNSLabelSelector ns selector :=
    some (((pairs c.configuredPods).filter fun e => e.1 = e.2.id.string ∧
      e.2.ns = ns ∧ selector.any fun s => s.Selects e.2.label).map (·.2.id))
  lookupPolicy id :=
    match c.configuredPolicies.lookup id.string with
    | some policy => (true, some policy)
    | none => (false, none)
  lookupPoliciesByPod id :=
    match c.configuredPods.lookup id.string with
    | some pod => some (((pairs c.configuredPolicies).filter fun e =>
        e.1 = e.2.id.string ∧ e.2.ns = pod.ns ∧
          e.2.pods.any fun s => s.Selects pod.label).map (·.2.id))
    | none => some []
  listAllPods := some ((pairs c.configuredPods).map (·.2.id))
  listAllPolicies := some ((pairs c.configuredPolicies).map (·.2.id))

theorem ideal_follows (c : Cache) : Follows (.ideal c) c where
  pod pod hpod := by
    simp only [PolicyCacheAPI.ideal, hpod.1]
  pods ns selector := by
    refine ⟨_, rfl, fun id => ?_⟩
    simp only [List.mem_map, List.mem_filter, decide_eq_true_eq,
      Option.any_eq_true]
    constructor
    · intro h
      obtain ⟨e, ⟨he, hid, hns, s, hs, hsel⟩, rfl⟩ := h
      have hlookup := mem_range (o := .insertion).mp he
      rw [hid] at hlookup
      exact ⟨s, hs, e.2, ⟨hlookup, hns⟩, by simpa using hsel, rfl⟩
    · intro h
      obtain ⟨s, hs, pod, hpod, hsel, rfl⟩ := h
      exact ⟨(pod.id.string, pod), ⟨mem_range (o := .insertion).mpr hpod.1,
        rfl, hpod.2, s, hs, by simpa using hsel⟩, rfl⟩
  policy ns policy selector hpolicy := by
    simp only [PolicyCacheAPI.ideal, hpolicy.lookup]
  policies pod hpod := by
    simp only [PolicyCacheAPI.ideal, hpod.1]
    refine ⟨_, rfl, ?_, fun id => ?_⟩
    · have hkeys := range_keys_nodup .insertion c.configuredPolicies
      rw [List.Nodup, List.pairwise_map] at hkeys ⊢
      refine (List.Pairwise.and_mem.mp (hkeys.sublist
        List.filter_sublist)).imp fun {e e'} hne heq => ?_
      have he := (List.mem_filter.mp hne.1).2
      have he' := (List.mem_filter.mp hne.2.1).2
      rw [decide_eq_true_eq] at he he'
      exact hne.2.2 (by rw [he.1, he'.1, heq])
    · simp only [List.mem_map, List.mem_filter, decide_eq_true_eq,
        Option.any_eq_true]
      constructor
      · intro h
        obtain ⟨e, ⟨he, hid, hns, s, hs, hsel⟩, rfl⟩ := h
        have hlookup := mem_range (o := .insertion).mp he
        rw [hid] at hlookup
        exact ⟨e.2, ⟨s, ⟨hlookup, hns, hs⟩, by simpa using hsel⟩, rfl⟩
      · intro h
        obtain ⟨policy, ⟨s, hpolicy, hsel⟩, rfl⟩ := h
        exact ⟨(policy.id.string, policy),
          ⟨mem_range (o := .insertion).mpr hpolicy.lookup, rfl,
            hpolicy.ns_eq, s, hpolicy.pods, by simpa using hsel⟩, rfl⟩

/-! ## The meaning of peers and ports -/

def HasIP (pod : Pod) (ip : IP) : Prop :=
  ∃ podIP, parseIP pod.ipAddress = some podIP ∧ ipEqual podIP ip = true

section Meaning

variable (c : Cache) (ns : String) (peer : Peer) (ip : IP)

def AdmitsPods : Prop :=
  ∃ selector, peer.pods = some selector ∧ ∃ pod, c.HasPod ns pod ∧
    selector.Selects pod.label ∧ HasIP pod ip

def AdmitsNamespaces : Prop :=
  ∃ selector, peer.namespaces = some selector ∧ ∃ pod data,
    c.HasPod pod.ns pod ∧ c.configuredNamespaces.lookup pod.ns = some data ∧
      selector.Selects data.label ∧ HasIP pod ip

def AdmitsBlock : Prop :=
  ∃ block network, peer.ipBlock = some block ∧
    parseCIDR block.cidr = some network ∧ network.contains ip = true ∧
    ∀ text ∈ block.except, ∀ except, parseCIDR text = some except →
      except.contains ip = false

def PeerAdmits : Prop :=
  AdmitsPods c ns peer ip ∨ AdmitsNamespaces c peer ip ∨ AdmitsBlock peer ip

end Meaning

def portProtocol : PortProtocol → Renderer.ProtocolType
  | .tcp => .tcp
  | .udp => .udp

/-- The ports of the containers at an address that have the name. -/
abbrev ContainerPorts := IP → PortProtocol → String → UInt16 → Prop

def PortAdmits (containerPorts : ContainerPorts) (port : K8s.Port)
    (t : Traffic) : Prop :=
  t.protocol = portProtocol port.protocol ∧ ∀ ref, port.port = some ref →
      match ref.type with
      | .number => (t.destPort.toNat : ℤ) = ref.number
      | .name => containerPorts t.destIP port.protocol ref.name t.destPort

section Preserves

variable (api : PolicyCacheAPI) (c : Cache) (containerPorts : ContainerPorts)

structure MatchPreserves (ns : String) (direction : MatchType) (rule : Rule)
    (m : Match) : Prop where
  type : m.type = direction
  remote : ∀ t : Traffic, m.l3Holds api.lookupPod (remoteIP direction t) = true ↔
      rule.peer = [] ∨ ∃ peer ∈ rule.peer,
        PeerAdmits c ns peer (remoteIP direction t)
  port : ∀ t : Traffic, m.l4Holds t = true ↔
    rule.port = [] ∨ ∃ port ∈ rule.port, PortAdmits containerPorts port t

structure Preserves (policy : Policy) (cp : ContivPolicy) : Prop where
  id : cp.id = policy.id
  ingress : cp.applies .ingress = true ↔ policy.policyType ≠ .egress
  egress : cp.applies .egress = true ↔ policy.policyType = .egress ∨
    policy.policyType = .ingressAndEgress ∨
    policy.policyType = .default ∧ policy.egressRule ≠ []
  matchList : ∃ ingress egress, cp.matchList = ingress ++ egress ∧
    List.Forall₂ (MatchPreserves api c containerPorts policy.ns .ingress)
      policy.ingressRule ingress ∧
    List.Forall₂ (MatchPreserves api c containerPorts policy.ns .egress)
      policy.egressRule egress

/-- Each policy that selects the pod has one Contiv policy that preserves it,
and there are no others. -/
structure AllPreserved (pod : Pod) (policies : List ContivPolicy) : Prop where
  nodup : (policies.map ContivPolicy.id).Nodup
  sound : ∀ cp ∈ policies, ∃ policy, Assigned c pod policy ∧
    Preserves api c containerPorts policy cp
  complete : ∀ policy, Assigned c pod policy →
    ∃ cp ∈ policies, Preserves api c containerPorts policy cp

end Preserves

/-! ## When a rule is preserved -/

def IPBlockParses (block : K8s.IPBlock) : Prop :=
  (parseCIDR block.cidr).isSome = true ∧
    ∀ text ∈ block.except, (parseCIDR text).isSome = true

section Translatable

variable (c : Cache) (containerPorts : ContainerPorts)

/-- The blocks are networks, the pods of selected namespaces are admitted
anyway, all ports are given, and those with a name do not widen the rule. -/
structure RuleTranslatable (ns : String) (rule : Rule) : Prop where
  blocks : ∀ peer ∈ rule.peer, ∀ block, peer.ipBlock = some block →
    IPBlockParses block
  namespaces : ∀ peer ∈ rule.peer, ∀ ip, ValidIP ip → AdmitsNamespaces c peer ip →
      ∃ peer' ∈ rule.peer, AdmitsPods c ns peer' ip ∨ AdmitsBlock peer' ip
  ports : ∀ port ∈ rule.port, ∃ ref, port.port = some ref ∧
    (ref.type = .name → ∀ t : Traffic, t.protocol = portProtocol port.protocol →
        ∃ port' ∈ rule.port, PortAdmits containerPorts port' t)

structure Translatable (policy : Policy) : Prop where
  type : policy.policyType = .default → policy.egressRule = []
  rules : ∀ rule ∈ policy.ingressRule ++ policy.egressRule,
    RuleTranslatable c containerPorts policy.ns rule

end Translatable

def PortsValid (rule : Rule) : Prop :=
  ∀ port ∈ rule.port, ∀ ref, port.port = some ref →
    (ref.type = .number → 0 < ref.number ∧ ref.number < 65536) ∧
      (ref.type = .name → ref.number = 0)

/-! ## Blocks, peers and ports -/

theorem calculateIPBlock_isSome {block : K8s.IPBlock} :
    (∃ b, calculateIPBlock block = some b) ↔ IPBlockParses block := by
  have hexcept := @exists_mapM_iff _ _ parseCIDR block.except fun _ _ => True
  simp only [and_true] at hexcept
  simp only [calculateIPBlock, bind_eq_some_iff, pure_eq_some_iff,
    IPBlockParses, Option.isSome_iff_exists]
  constructor
  · intro h
    obtain ⟨b, except, hmap, network, hnetwork, _⟩ := h
    refine ⟨⟨network, hnetwork⟩, hexcept.mp ⟨except, hmap, ?_⟩⟩
    exact (mapM_eq_some_iff.mp hmap).imp fun _ _ _ => trivial
  · intro h
    obtain ⟨⟨network, hnetwork⟩, hall⟩ := h
    obtain ⟨except, hmap, _⟩ := hexcept.mpr hall
    exact ⟨_, except, hmap, network, hnetwork, rfl⟩

theorem calculateIPBlock_holds {block : K8s.IPBlock}
    {b : Configurator.IPBlock} (h : calculateIPBlock block = some b)
    (ip : IP) :
    b.holds ip = true ↔ ∃ network, parseCIDR block.cidr = some network ∧
      network.contains ip = true ∧
      ∀ text ∈ block.except, ∀ except, parseCIDR text = some except →
        except.contains ip = false := by
  simp only [calculateIPBlock, bind_eq_some_iff, pure_eq_some_iff] at h
  obtain ⟨excepts, hmap, network, hnetwork, rfl⟩ := h
  have hexcepts : (∀ e ∈ excepts, e.contains ip = false) ↔
      ∀ text ∈ block.except, ∀ except, parseCIDR text = some except →
        except.contains ip = false := by
    simp only [mem_mapM_iff hmap]
    constructor
    · exact fun h text htext except hparse => h except ⟨text, htext, hparse⟩
    · intro h except hex
      obtain ⟨text, htext, hparse⟩ := hex
      exact h text htext except hparse
  rw [IPBlock.holds, ← hexcepts]
  simp [hnetwork]

section Rule

variable {api : PolicyCacheAPI} {c : Cache} {ns : String}

theorem calculatePeer_isSome (hapi : Follows api c) {peer : Peer} :
    (∃ p, calculatePeer api ns peer = some p) ↔
      ∀ block, peer.ipBlock = some block → IPBlockParses block := by
  obtain ⟨ids, hids, _⟩ := hapi.pods ns peer.pods
  cases hblock : peer.ipBlock with
  | none => simp [calculatePeer, hids, hblock]
  | some block =>
      simp only [calculatePeer, hids, hblock, Option.bind_eq_bind,
        Option.bind_some, Option.bind_eq_some_iff, Option.pure_def,
        Option.some.injEq, forall_eq', ← calculateIPBlock_isSome]
      constructor
      · intro h
        obtain ⟨_, b, hb, _⟩ := h
        exact ⟨b, hb⟩
      · intro h
        obtain ⟨b, hb⟩ := h
        exact ⟨_, b, hb, rfl⟩

theorem calculatePeer_admits (hapi : Follows api c) {peer : Peer}
    {p : List PodID × Option Configurator.IPBlock}
    (h : calculatePeer api ns peer = some p) (ip : IP) :
    ((∃ id ∈ p.1, podHasIP api.lookupPod ip id = true) ↔
      AdmitsPods c ns peer ip) ∧
    ((∃ b, p.2 = some b ∧ b.holds ip = true) ↔ AdmitsBlock peer ip) := by
  obtain ⟨ids, hids, hmem⟩ := hapi.pods ns peer.pods
  have hpods : (∃ id ∈ ids, podHasIP api.lookupPod ip id = true) ↔
      AdmitsPods c ns peer ip := by
    have hasIP : ∀ pod, c.HasPod ns pod →
        (podHasIP api.lookupPod ip pod.id = true ↔ HasIP pod ip) := by
      intro pod hpod
      have hlookup := hapi.pod pod ⟨hpod.1, rfl⟩
      rw [podHasIP, hlookup]
      cases hparse : parseIP pod.ipAddress with
      | none => simp [HasIP, hparse]
      | some podIP => simp [HasIP, hparse]
    simp only [hmem, AdmitsPods]
    constructor
    · intro hex
      obtain ⟨id, ⟨s, hs, pod, hpod, hsel, rfl⟩, hip⟩ := hex
      exact ⟨s, hs, pod, hpod, hsel, (hasIP pod hpod).mp hip⟩
    · intro hex
      obtain ⟨s, hs, pod, hpod, hsel, hip⟩ := hex
      exact ⟨pod.id, ⟨s, hs, pod, hpod, hsel, rfl⟩, (hasIP pod hpod).mpr hip⟩
  cases hblock : peer.ipBlock with
  | none =>
      obtain rfl : (ids, none) = p := by
        simpa [calculatePeer, hids, hblock] using h
      refine ⟨hpods, ?_⟩
      simp [AdmitsBlock, hblock]
  | some block =>
      simp only [calculatePeer, hids, hblock, Option.bind_eq_bind,
        Option.bind_some, Option.bind_eq_some_iff, Option.pure_def,
        Option.some.injEq] at h
      obtain ⟨b, hb, rfl⟩ := h
      refine ⟨hpods, ?_⟩
      simp only [Option.some.injEq, exists_eq_left',
        calculateIPBlock_holds hb ip, AdmitsBlock, hblock]
      constructor
      · intro hex
        obtain ⟨network, hrest⟩ := hex
        exact ⟨block, network, rfl, hrest⟩
      · intro hex
        obtain ⟨_, network, rfl, hrest⟩ := hex
        exact ⟨network, hrest⟩

def CodePortAdmits (port : K8s.Port) (t : Traffic) : Prop :=
  ∃ ref, port.port = some ref ∧ t.protocol = portProtocol port.protocol ∧
    (toUint16 ref.number = 0 ∨ toUint16 ref.number = t.destPort)

theorem calculatePort_admits {port : K8s.Port} {p : Configurator.Port}
    (h : calculatePort port = some p) (t : Traffic) :
    (p.protocol.renderer == t.protocol &&
      (p.number == 0 || p.number == t.destPort)) = true ↔
    CodePortAdmits port t := by
  simp only [calculatePort, bind_eq_some_iff, pure_eq_some_iff] at h
  obtain ⟨ref, href, rfl⟩ := h
  have hprotocol : (if port.protocol = .udp then Configurator.ProtocolType.udp
      else .tcp).renderer = portProtocol port.protocol := by
    cases port.protocol <;> rfl
  simp only [hprotocol, CodePortAdmits, href, Option.some.injEq,
    exists_eq_left', Bool.and_eq_true, Bool.or_eq_true, beq_iff_eq]
  rw [eq_comm]

theorem calculateMatch_spec (hapi : Follows api c) {type : MatchType}
    {rule : Rule} {m : Match} (h : calculateMatch api ns type rule = some m) :
    m.type = type ∧
    (∀ ip, m.l3Holds api.lookupPod ip = true ↔ rule.peer = [] ∨
      ∃ peer ∈ rule.peer, AdmitsPods c ns peer ip ∨ AdmitsBlock peer ip) ∧
    (∀ t, m.l4Holds t = true ↔ rule.port = [] ∨
      ∃ port ∈ rule.port, CodePortAdmits port t) := by
  simp only [calculateMatch, bind_eq_some_iff, pure_eq_some_iff] at h
  obtain ⟨peers, hpeers, ports, hports, rfl⟩ := h
  have hl4 : ∀ t, (ports.isEmpty || ports.any fun port =>
      port.protocol.renderer == t.protocol &&
        (port.number == 0 || port.number == t.destPort)) = true ↔
      rule.port = [] ∨ ∃ port ∈ rule.port, CodePortAdmits port t := by
    intro t
    rw [Bool.or_eq_true, List.isEmpty_iff, List.any_eq_true]
    refine or_congr ?_ ?_
    · have hlength := (mapM_eq_some_iff.mp hports).length_eq
      rw [← List.length_eq_zero_iff, ← List.length_eq_zero_iff, hlength]
    · constructor
      · intro hex
        obtain ⟨p, hp, hadmits⟩ := hex
        obtain ⟨port, hport, heq⟩ := (mem_mapM_iff hports).mp hp
        exact ⟨port, hport, (calculatePort_admits heq t).mp hadmits⟩
      · intro hex
        obtain ⟨port, hport, hadmits⟩ := hex
        obtain ⟨p, hp, heq⟩ := exists_of_mapM hports hport
        exact ⟨p, hp, (calculatePort_admits heq t).mpr hadmits⟩
  by_cases hempty : rule.peer = []
  · rw [if_pos hempty]
    exact ⟨rfl, fun ip => by simp [Match.l3Holds, hempty], hl4⟩
  · rw [if_neg hempty]
    refine ⟨rfl, fun ip => ?_, hl4⟩
    have hl3 : Match.l3Holds api.lookupPod ⟨type,
        some (peers.flatMap Prod.fst), some (peers.filterMap Prod.snd),
        ports⟩ ip = true ↔ ∃ p ∈ peers,
          (∃ id ∈ p.1, podHasIP api.lookupPod ip id = true) ∨
          (∃ b, p.2 = some b ∧ b.holds ip = true) := by
      simp only [Match.l3Holds, Option.isNone_some, Bool.and_self,
        Bool.false_or, Option.getD_some, Bool.or_eq_true, List.any_eq_true,
        List.mem_flatMap, List.mem_filterMap]
      constructor
      · intro hor
        rcases hor with ⟨id, ⟨p, hp, hid⟩, hip⟩ | ⟨b, ⟨p, hp, hb⟩, hip⟩
        · exact ⟨p, hp, Or.inl ⟨id, hid, hip⟩⟩
        · exact ⟨p, hp, Or.inr ⟨b, hb, hip⟩⟩
      · intro hex
        obtain ⟨p, hp, ⟨id, hid, hip⟩ | ⟨b, hb, hip⟩⟩ := hex
        · exact Or.inl ⟨id, ⟨p, hp, hid⟩, hip⟩
        · exact Or.inr ⟨b, ⟨p, hp, hb⟩, hip⟩
    rw [hl3]
    simp only [hempty, false_or]
    constructor
    · intro hex
      obtain ⟨p, hp, hadmits⟩ := hex
      obtain ⟨peer, hpeer, heq⟩ := (mem_mapM_iff hpeers).mp hp
      have hpeerAdmits := calculatePeer_admits hapi heq ip
      rw [hpeerAdmits.1, hpeerAdmits.2] at hadmits
      exact ⟨peer, hpeer, hadmits⟩
    · intro hex
      obtain ⟨peer, hpeer, hadmits⟩ := hex
      obtain ⟨p, hp, heq⟩ := exists_of_mapM hpeers hpeer
      have hpeerAdmits := calculatePeer_admits hapi heq ip
      rw [← hpeerAdmits.1, ← hpeerAdmits.2] at hadmits
      exact ⟨p, hp, hadmits⟩

theorem calculateMatch_isSome (hapi : Follows api c) (type : MatchType)
    {rule : Rule} :
    (∃ m, calculateMatch api ns type rule = some m) ↔
      (∀ peer ∈ rule.peer, ∀ block, peer.ipBlock = some block →
        IPBlockParses block) ∧
      ∀ port ∈ rule.port, ∃ ref, port.port = some ref := by
  have hpeers := @exists_mapM_iff _ _ (calculatePeer api ns) rule.peer
    fun _ _ => True
  have hports := @exists_mapM_iff _ _ calculatePort rule.port fun _ _ => True
  simp only [and_true, calculatePeer_isSome hapi] at hpeers hports
  have hport : ∀ port, (∃ p, calculatePort port = some p) ↔
      ∃ ref, port.port = some ref := by
    intro port
    cases hport : port.port <;> simp [calculatePort, hport]
  simp only [hport] at hports
  rw [← hpeers, ← hports]
  simp only [calculateMatch, bind_eq_some_iff, pure_eq_some_iff]
  constructor
  · intro h
    obtain ⟨_, peers, hpeers, ports, hports, _⟩ := h
    exact ⟨⟨peers, hpeers, (mapM_eq_some_iff.mp hpeers).imp fun _ _ _ => trivial⟩,
      ports, hports, (mapM_eq_some_iff.mp hports).imp fun _ _ _ => trivial⟩
  · intro h
    obtain ⟨⟨peers, hpeers, _⟩, ports, hports, _⟩ := h
    exact ⟨_, peers, hpeers, ports, hports, rfl⟩

variable {containerPorts : ContainerPorts}

theorem codePortAdmits_number {port : K8s.Port} {ref : PortNameOrNumber}
    (href : port.port = some ref) (htype : ref.type = .number)
    (hnumber : 0 < ref.number ∧ ref.number < 65536) (t : Traffic) :
    CodePortAdmits port t ↔ PortAdmits containerPorts port t := by
  have hmod : ref.number % 65536 = ref.number :=
    Int.emod_eq_of_lt hnumber.1.le hnumber.2
  have hnat : (toUint16 ref.number).toNat = ref.number.toNat := by
    rw [toUint16, hmod, UInt16.toNat_ofNat']
    exact Nat.mod_eq_of_lt (by omega)
  have hzero : toUint16 ref.number ≠ 0 := by
    intro heq
    rw [heq] at hnat
    simp at hnat
    omega
  have hport : toUint16 ref.number = t.destPort ↔
      (t.destPort.toNat : ℤ) = ref.number := by
    rw [← UInt16.toNat_inj, hnat]
    omega
  simp [CodePortAdmits, PortAdmits, href, htype, hzero, hport]

/-- A port with a name is taken for all ports of the protocol. -/
theorem codePortAdmits_name {port : K8s.Port} {ref : PortNameOrNumber}
    (href : port.port = some ref) (hnumber : ref.number = 0) (t : Traffic) :
    CodePortAdmits port t ↔ t.protocol = portProtocol port.protocol := by
  have hzero : toUint16 0 = 0 := by decide
  simp [CodePortAdmits, href, hnumber, hzero]

theorem exists_traffic {ip : IP} (hip : ValidIP ip) (direction : MatchType) :
    ∃ t : Traffic, remoteIP direction t = ip :=
  ⟨⟨ip, ip, .tcp, 1, 1, hip, hip, by decide⟩, by cases direction <;> rfl⟩

theorem valid_remoteIP (direction : MatchType) (t : Traffic) :
    ValidIP (remoteIP direction t) := by
  cases direction
  · exact t.srcValid
  · exact t.destValid

theorem calculateMatch_preserves_iff (hapi : Follows api c)
    {direction : MatchType} {rule : Rule} (hvalid : PortsValid rule) :
    (∃ m, calculateMatch api ns direction rule = some m ∧
      MatchPreserves api c containerPorts ns direction rule m) ↔
    RuleTranslatable c containerPorts ns rule := by
  constructor
  · intro h
    obtain ⟨m, hm, hpreserves⟩ := h
    obtain ⟨_, hl3, hl4⟩ := calculateMatch_spec hapi hm
    obtain ⟨hblocks, hrefs⟩ := (calculateMatch_isSome hapi _).mp ⟨m, hm⟩
    refine ⟨hblocks, ?_, ?_⟩
    · intro peer hpeer ip hip hadmits
      obtain ⟨t, rfl⟩ := exists_traffic hip direction
      have hmatch := (hpreserves.remote t).mpr
        (Or.inr ⟨peer, hpeer, Or.inr (Or.inl hadmits)⟩)
      exact ((hl3 _).mp hmatch).resolve_left (List.ne_nil_of_mem hpeer)
    · intro port hport
      obtain ⟨ref, href⟩ := hrefs port hport
      refine ⟨ref, href, fun hname t ht => ?_⟩
      have hnumber := (hvalid port hport ref href).2 hname
      have hmatch := (hl4 t).mpr (Or.inr ⟨port, hport,
        (codePortAdmits_name href hnumber t).mpr ht⟩)
      exact ((hpreserves.port t).mp hmatch).resolve_left
        (List.ne_nil_of_mem hport)
  · intro h
    obtain ⟨m, hm⟩ := (calculateMatch_isSome hapi direction).mpr
      ⟨h.blocks, fun port hport => (h.ports port hport).imp fun _ hr => hr.1⟩
    obtain ⟨htype, hl3, hl4⟩ := calculateMatch_spec hapi hm
    refine ⟨m, hm, htype, fun t => ?_, fun t => ?_⟩
    · rw [hl3]
      refine or_congr_right ⟨fun hex => ?_, fun hex => ?_⟩
      · obtain ⟨peer, hpeer, hadmits⟩ := hex
        exact ⟨peer, hpeer, hadmits.imp_right Or.inr⟩
      · obtain ⟨peer, hpeer, hpods | hnamespaces | hblock⟩ := hex
        · exact ⟨peer, hpeer, Or.inl hpods⟩
        · exact h.namespaces peer hpeer _ (valid_remoteIP direction t) hnamespaces
        · exact ⟨peer, hpeer, Or.inr hblock⟩
    · rw [hl4]
      refine or_congr_right ⟨fun hex => ?_, fun hex => ?_⟩
      · obtain ⟨port, hport, hadmits⟩ := hex
        obtain ⟨ref, href, hwide⟩ := h.ports port hport
        obtain ⟨hnumber, hname⟩ := hvalid port hport ref href
        cases htype : ref.type with
        | number =>
            exact ⟨port, hport, (codePortAdmits_number href htype
              (hnumber htype) t).mp hadmits⟩
        | name =>
            exact hwide htype t ((codePortAdmits_name href
              (hname htype) t).mp hadmits)
      · obtain ⟨port, hport, hadmits⟩ := hex
        obtain ⟨ref, href, _⟩ := h.ports port hport
        obtain ⟨hnumber, hname⟩ := hvalid port hport ref href
        refine ⟨port, hport, ?_⟩
        cases htype : ref.type with
        | number =>
            exact (codePortAdmits_number href htype (hnumber htype) t).mpr hadmits
        | name =>
            exact (codePortAdmits_name href (hname htype) t).mpr hadmits.1

end Rule

/-! ## Policies -/

variable {policy : Policy} {pod : Pod}

section Policy

variable {api : PolicyCacheAPI} {c : Cache} {containerPorts : ContainerPorts}

def PolicyPortsValid (policy : Policy) : Prop :=
  ∀ rule ∈ policy.ingressRule ++ policy.egressRule, PortsValid rule

/-- The ports of reflected policies are valid if the numbers of the API are. -/
theorem policyToProto_portsValid {o : PolicyReflector.LabelOrders}
    {policy : PolicyReflector.NetworkPolicy} (h : policy.PortsInRange) :
    PolicyPortsValid (PolicyReflector.policyToProto o policy) := by
  intro rule hrule
  obtain ⟨apiRule, hmem, hports⟩ := PolicyReflector.policyToProto_ports hrule
  rw [PortsValid, hports]
  exact PolicyReflector.portsToProto_valid (h apiRule hmem)

/-- The direction of a policy is kept unless its type is left open and it has
egress rules. -/
theorem processType_preserves {matchList : List Match} :
    ((ContivPolicy.applies .egress ⟨policy.id,
        processType policy.policyType, matchList⟩ = true ↔
      policy.policyType = .egress ∨ policy.policyType = .ingressAndEgress ∨
        policy.policyType = .default ∧ policy.egressRule ≠ []) ↔
      (policy.policyType = .default → policy.egressRule = [])) ∧
    (ContivPolicy.applies .ingress ⟨policy.id,
        processType policy.policyType, matchList⟩ = true ↔
      policy.policyType ≠ .egress) := by
  cases policy.policyType <;> simp [ContivPolicy.applies, processType]

theorem processData_preserves_iff (hapi : Follows api c)
    (hvalid : PolicyPortsValid policy) :
    (∃ cp, processData api policy = some cp ∧
      Preserves api c containerPorts policy cp) ↔
    Translatable c containerPorts policy := by
  have hingress := @exists_mapM_iff _ _
    (calculateMatch api policy.ns .ingress) policy.ingressRule
    (MatchPreserves api c containerPorts policy.ns .ingress)
  have hegress := @exists_mapM_iff _ _
    (calculateMatch api policy.ns .egress) policy.egressRule
    (MatchPreserves api c containerPorts policy.ns .egress)
  have hrules : Translatable c containerPorts policy ↔
      (policy.policyType = .default → policy.egressRule = []) ∧
      (∀ rule ∈ policy.ingressRule,
        RuleTranslatable c containerPorts policy.ns rule) ∧
      ∀ rule ∈ policy.egressRule,
        RuleTranslatable c containerPorts policy.ns rule := by
    rw [← List.forall_mem_append]
    exact ⟨fun h => ⟨h.type, h.rules⟩, fun h => ⟨h.1, h.2⟩⟩
  have hin : ∀ rule ∈ policy.ingressRule, PortsValid rule := fun rule hr =>
    hvalid rule (List.mem_append_left _ hr)
  have hout : ∀ rule ∈ policy.egressRule, PortsValid rule := fun rule hr =>
    hvalid rule (List.mem_append_right _ hr)
  have hingress := hingress.trans (forall₂_congr fun rule hr =>
    calculateMatch_preserves_iff hapi (hin rule hr))
  have hegress := hegress.trans (forall₂_congr fun rule hr =>
    calculateMatch_preserves_iff hapi (hout rule hr))
  rw [hrules, ← hingress, ← hegress]
  simp only [processData, calculateMatches, bind_eq_some_iff, pure_eq_some_iff]
  constructor
  · intro h
    obtain ⟨cp, ⟨_, ⟨ms, hms, ms', hms', rfl⟩, rfl⟩, hpreserves⟩ := h
    obtain ⟨ingress, egress, happend, hforall, hforall'⟩ :=
      hpreserves.matchList
    have hlength : ms.length = ingress.length := by
      rw [← hforall.length_eq, (mapM_eq_some_iff.mp hms).length_eq]
    obtain ⟨rfl, rfl⟩ := List.append_inj happend hlength
    exact ⟨processType_preserves.1.mp hpreserves.egress,
      ⟨ms, hms, hforall⟩, ms', hms', hforall'⟩
  · intro h
    obtain ⟨htype, ⟨ms, hms, hforall⟩, ms', hms', hforall'⟩ := h
    exact ⟨_, ⟨_, ⟨ms, hms, ms', hms', rfl⟩, rfl⟩, rfl,
      processType_preserves.2, processType_preserves.1.mpr htype,
      ms, ms', rfl, hforall, hforall'⟩

theorem map_reduceOption_of_forall₂ {ids : List PolicyID}
    {found : List (Option ContivPolicy)}
    (h : List.Forall₂ (fun id o => ∃ cp : ContivPolicy, o = some cp ∧
      cp.id = id) ids found) :
    found.reduceOption.map ContivPolicy.id = ids := by
  induction h with
  | nil => rfl
  | cons hcp _ ih =>
      obtain ⟨cp, rfl, rfl⟩ := hcp
      rw [List.reduceOption_cons_of_some, List.map_cons, ih]

theorem processPolicy_of_assigned (hapi : Follows api c)
    (hassigned : Assigned c pod policy) :
    processPolicy api policy.id = (processData api policy).map some := by
  obtain ⟨selector, hhas, _⟩ := hassigned
  rw [processPolicy, hapi.policy _ _ _ hhas]

theorem Assigned.eq_of_id {policy' : Policy} (h : Assigned c pod policy)
    (h' : Assigned c pod policy') (hid : policy.id = policy'.id) :
    policy = policy' := by
  obtain ⟨_, hhas, _⟩ := h
  obtain ⟨_, hhas', _⟩ := h'
  have hlookup := hhas.lookup
  rw [hid, hhas'.lookup, Option.some.injEq] at hlookup
  exact hlookup.symm

theorem exists_processPolicy {containerPorts : ContainerPorts}
    (hapi : Follows api c) (hassigned : Assigned c pod policy)
    (hvalid : PolicyPortsValid policy)
    (h : Translatable c containerPorts policy) :
    ∃ cp, processPolicy api policy.id = some (some cp) ∧
      cp.id = policy.id ∧ Preserves api c containerPorts policy cp := by
  obtain ⟨cp, hcp, hpreserves⟩ :=
    (processData_preserves_iff hapi hvalid).mpr h
  refine ⟨cp, ?_, hpreserves.id, hpreserves⟩
  rw [processPolicy_of_assigned hapi hassigned, hcp]
  rfl

/-- The Contiv policies of a pod preserve the policies that select it just if
these are translatable. -/
theorem processPod_preserves_iff (api : PolicyCacheAPI) (c : Cache)
    (containerPorts : ContainerPorts) (hapi : Follows api c) (pod : Pod)
    (hpod : c.HasPod pod.ns pod)
    (hvalid : ∀ policy, Assigned c pod policy → PolicyPortsValid policy) :
    (∃ policies, processPod api pod.id = some policies ∧
      AllPreserved api c containerPorts pod policies) ↔
    ∀ policy, Assigned c pod policy → Translatable c containerPorts policy := by
  obtain ⟨ids, hids, hnodup, hmem⟩ := hapi.policies pod hpod
  have hprocess : ∀ policies, processPod api pod.id = some policies ↔
      ∃ found, ids.mapM (processPolicy api) = some found ∧
        found.reduceOption = policies := by
    intro policies
    simp [processPod, hids, Option.bind_eq_some_iff]
  constructor
  · intro h policy hassigned
    obtain ⟨policies, hpolicies, hall⟩ := h
    obtain ⟨found, hfound, rfl⟩ := (hprocess policies).mp hpolicies
    obtain ⟨cp, hcp, hpreserves⟩ := hall.complete policy hassigned
    rw [List.reduceOption_mem_iff, mem_mapM_iff hfound] at hcp
    obtain ⟨id, hid, hcp⟩ := hcp
    obtain ⟨policy', hassigned', rfl⟩ := (hmem id).mp hid
    have hcp : processData api policy' = some cp := by
      rw [processPolicy_of_assigned hapi hassigned'] at hcp
      simpa using hcp
    obtain rfl : policy' = policy := hassigned'.eq_of_id hassigned
      (by rw [← id_of_processData hcp, hpreserves.id])
    exact (processData_preserves_iff hapi (hvalid policy' hassigned)).mp
      ⟨cp, hcp, hpreserves⟩
  · intro h
    have hgood : ∀ id ∈ ids, ∃ cp, processPolicy api id = some (some cp) ∧
        cp.id = id ∧ ∃ policy, Assigned c pod policy ∧
          Preserves api c containerPorts policy cp := by
      intro id hid
      obtain ⟨policy, hassigned, rfl⟩ := (hmem id).mp hid
      obtain ⟨cp, hcp, hcpId, hpreserves⟩ := exists_processPolicy hapi
        hassigned (hvalid policy hassigned) (h policy hassigned)
      exact ⟨cp, hcp, hcpId, policy, hassigned, hpreserves⟩
    obtain ⟨found, hfound, hall⟩ := (@exists_mapM_iff _ _
      (processPolicy api) ids fun id o => ∃ cp, o = some cp ∧ cp.id = id).mpr
        fun id hid => by
          obtain ⟨cp, hcp, hcpId, _⟩ := hgood id hid
          exact ⟨some cp, hcp, cp, rfl, hcpId⟩
    refine ⟨found.reduceOption, (hprocess _).mpr ⟨found, hfound, rfl⟩, ?_, ?_, ?_⟩
    · rw [map_reduceOption_of_forall₂ hall]
      exact hnodup
    · intro cp hcp
      rw [List.reduceOption_mem_iff, mem_mapM_iff hfound] at hcp
      obtain ⟨id, hid, hcp⟩ := hcp
      obtain ⟨cp', hcp', _, hassigned⟩ := hgood id hid
      rw [hcp, Option.some.injEq, Option.some.injEq] at hcp'
      rw [hcp']
      exact hassigned
    · intro policy hassigned
      have hid := (hmem policy.id).mpr ⟨policy, hassigned, rfl⟩
      obtain ⟨cp, hcp, hcpId, policy', hassigned', hpreserves⟩ :=
        hgood policy.id hid
      refine ⟨cp, ?_, ?_⟩
      · rw [List.reduceOption_mem_iff, mem_mapM_iff hfound]
        exact ⟨policy.id, hid, hcp⟩
      · obtain rfl : policy' = policy := hassigned'.eq_of_id hassigned
          (by rw [← hpreserves.id, hcpId])
        exact hpreserves

end Policy

/-! ## Reflected policies of the pod of a shop -/

def policyCache (policy : Policy) : Cache :=
  { twoPods with
    configuredPolicies := AList.insert policy.id.string policy ∅ }

theorem assigned_policyCache {policy' : Policy}
    (h : Assigned (policyCache policy) pod policy') : policy' = policy := by
  obtain ⟨_, hpolicy, _⟩ := h
  rcases lookup_insert_eq_some hpolicy.lookup with ⟨_, heq⟩ | ⟨_, hnone⟩
  · exact heq
  · cases hnone

def shopPolicy (name : String) (rule : PolicyReflector.NetworkPolicyRule) :
    PolicyReflector.NetworkPolicy where
  name := name
  ns := "default"
  podSelector := ⟨AList.insert "app" "shop" ∅, []⟩
  policyTypes := [.ingress]
  ingress := [rule]
  egress := []

def webRule : PolicyReflector.NetworkPolicyRule where
  ports := [⟨some .tcp, some ⟨.int, 80, ""⟩⟩, ⟨none, some ⟨.int, 443, ""⟩⟩]
  peers := [⟨some ⟨AList.insert "tier" "web" ∅, []⟩, none, none⟩,
    ⟨none, none, some ⟨"10.2.0.0/16", ["10.2.1.0/24"]⟩⟩]

def httpRule : PolicyReflector.NetworkPolicyRule :=
  ⟨[⟨some .tcp, some ⟨.string, 0, "http"⟩⟩], []⟩

def reflected (name : String) (rule : PolicyReflector.NetworkPolicyRule) :
    Policy :=
  PolicyReflector.policyToProto (fun _ => .insertion) (shopPolicy name rule)

def allowWeb : Policy := reflected "allow-web" webRule

def allowHttp : Policy := reflected "allow-http" httpRule

def httpPorts : ContainerPorts :=
  fun _ _ name port => name = "http" ∧ port = 80

theorem reflected_portsValid {name : String}
    {rule : PolicyReflector.NetworkPolicyRule}
    (h : ∀ port ∈ rule.ports, port.InRange) :
    PolicyPortsValid (reflected name rule) := by
  refine policyToProto_portsValid fun rule' hrule' => ?_
  rw [List.mem_singleton.mp hrule']
  exact h

theorem webRule_inRange : ∀ port ∈ webRule.ports, port.InRange := by
  intro port hport ref href _
  fin_cases hport <;> obtain rfl := Option.some.inj href <;> decide

theorem allowWeb_translatable :
    Translatable (policyCache allowWeb) httpPorts allowWeb where
  type := by decide
  rules rule hrule := by
    obtain rfl := List.mem_singleton.mp hrule
    refine ⟨fun peer hpeer block hblock => ?_, fun peer hpeer ip _ h => ?_,
      fun port hport => ?_⟩
    · fin_cases hpeer
      · cases hblock
      · obtain rfl := Option.some.inj hblock
        unfold IPBlockParses
        decide +kernel
    · obtain ⟨selector, hselector, _⟩ := h
      fin_cases hpeer <;> cases hselector
    · fin_cases hport <;> exact ⟨_, rfl, nofun⟩

theorem processPod_preserves_iff_allowWeb :
    Translatable (policyCache allowWeb) httpPorts allowWeb ∧
    ∃ policies, processPod (.ideal (policyCache allowWeb)) shopPod.id =
        some policies ∧
      policies.length = 1 ∧
      AllPreserved (.ideal (policyCache allowWeb)) (policyCache allowWeb)
        httpPorts shopPod policies := by
  obtain ⟨policies, hpolicies, hall⟩ := (processPod_preserves_iff
    (.ideal (policyCache allowWeb)) (policyCache allowWeb) httpPorts
    (ideal_follows _) shopPod ⟨by decide +kernel, rfl⟩
    fun _ h => assigned_policyCache h ▸ reflected_portsValid webRule_inRange).mpr
    fun _ h => assigned_policyCache h ▸ allowWeb_translatable
  refine ⟨allowWeb_translatable, policies, hpolicies, ?_, hall⟩
  have hlength : (processPod (.ideal (policyCache allowWeb)) shopPod.id).map
      List.length = some 1 := by decide +kernel
  simpa [hpolicies] using hlength

def sshTraffic : Traffic where
  srcIP := [10, 1, 1, 3]
  destIP := [10, 1, 1, 2]
  protocol := .tcp
  srcPort := 40000
  destPort := 22
  srcValid := by decide
  destValid := webRequest.destValid
  destPort_ne_zero := by decide

/-- The Contiv policy admits the traffic, the policy does not. -/
theorem processPod_widens_allowHttp : ∃ policies,
    processPod (.ideal (policyCache allowHttp)) shopPod.id = some policies ∧
      ¬ AllPreserved (.ideal (policyCache allowHttp)) (policyCache allowHttp)
        httpPorts shopPod policies := by
  refine ⟨[⟨allowHttp.id, .ingress, [⟨.ingress, none, none, [⟨.tcp, 0⟩]⟩]⟩],
    by decide +kernel, fun hall => ?_⟩
  have hassigned : Assigned (policyCache allowHttp) shopPod allowHttp :=
    ⟨_, ⟨by decide +kernel, rfl, rfl⟩, by decide⟩
  obtain ⟨cp, hcp, hpreserves⟩ := hall.complete allowHttp hassigned
  obtain rfl := List.mem_singleton.mp hcp
  obtain ⟨ingress, egress, happend, hingress, hegress⟩ :=
    hpreserves.matchList
  obtain rfl := List.forall₂_nil_left_iff.mp hegress
  rw [List.append_nil] at happend
  subst happend
  have hmatch := (List.forall₂_cons.mp hingress).1
  rcases (hmatch.port sshTraffic).mp rfl with hnil | hex
  · cases hnil
  · obtain ⟨port, hport, hadmits⟩ := hex
    obtain rfl := List.mem_singleton.mp hport
    exact absurd (hadmits.2 _ rfl).2 (by decide)

end ContivVPP.Processor
