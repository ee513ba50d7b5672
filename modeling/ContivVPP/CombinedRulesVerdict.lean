import ContivVPP.BestMatch
import ContivVPP.CombinedRules

/-!
# What the combined rules decide

A connection is looked up in a list of rules by the longest destination
prefix, then by an explicit port, then by position.  A round of the loop over
the other namespaces changes the outcome only for connections of one protocol
to one address.  There it makes the outcome the conjunction of what the sender
and what the receiver permit.
-/

namespace ContivVPP.SessionCache

open Net Renderer GoMap BestMatch

/-! ## Looking up a connection -/

-- The prefix comes first, and an explicit port decides between equal ones.
def lookupRank (rule : ContivRule) : ℕ :=
  2 * rule.destNetwork.matchLen + if rule.destPort = 0 then 0 else 1

def hits (rules : List ContivRule) (t : Traffic) : List ContivRule :=
  rules.filter (·.matchesTraffic t)

def lookupPermits (rules : List ContivRule) (t : Traffic) : Bool :=
  match (hits rules t).argmax lookupRank with
  | some rule => rule.action == .permit
  | none => true

theorem lookupPermits_congr {rules rules' : List ContivRule} {t : Traffic}
    (h : hits rules t = hits rules' t) :
    lookupPermits rules t = lookupPermits rules' t := by
  rw [lookupPermits, lookupPermits, h]

variable {rule : ContivRule}

theorem lookupRank_catchAllDeny {protocol : ProtocolType}
    (h : rule.IsCatchAllDeny protocol) :
    lookupRank rule = 0 := by
  simp [lookupRank, IPNet.matchLen_of_ip_nil h.dest, h.destPort]

theorem lookupPermits_iff_of_shaped {rules : List ContivRule}
    (h : DefaultDenyShaped rules) (t : Traffic) :
    lookupPermits rules t = true ↔ testTraffic rules t ≠ .denied := by
  obtain ⟨permits, denies, rfl, hpermits, hdenies, htotal⟩ := h.split
  have hdeny : ∀ rule ∈ denies, rule.action = .deny := by
    intro rule hrule
    obtain ⟨_, hcatch⟩ := hdenies rule hrule
    exact hcatch.action
  have hhits : hits (permits ++ denies) t = hits permits t ++ hits denies t :=
    List.filter_append ..
  rw [testTraffic_append_of_permit hpermits, lookupPermits, hhits]
  by_cases hnone : hits permits t = []
  · have hmatch : ¬ ∃ rule ∈ permits, rule.matchesTraffic t = true := by
      simpa [hits] using hnone
    rw [if_neg hmatch, hnone, List.nil_append]
    cases hbest : (hits denies t).argmax lookupRank with
    | none =>
        have hempty : denies = [] := by
          by_contra hne
          obtain ⟨rule, hrule, hrt⟩ := htotal hne t
          rw [List.argmax_eq_none] at hbest
          have hmem : rule ∈ hits denies t := List.mem_filter.mpr ⟨hrule, hrt⟩
          simp [hbest] at hmem
        simp [hempty, testTraffic]
    | some rule =>
        have hmem := List.mem_filter.mp (List.argmax_mem hbest)
        rw [testTraffic_of_deny hdeny ⟨rule, hmem⟩]
        simp [hdeny rule hmem.1]
  · have hrank : ∀ x ∈ hits permits t, ∀ y ∈ hits denies t,
        lookupRank y ≤ lookupRank x := by
      intro x _ y hy
      obtain ⟨protocol, hcatch⟩ := hdenies y (List.mem_of_mem_filter hy)
      rw [lookupRank_catchAllDeny hcatch]
      exact Nat.zero_le _
    have hmatch : ∃ rule ∈ permits, rule.matchesTraffic t = true := by
      simpa [hits] using hnone
    rw [if_pos hmatch, argmax_append_of_forall_le hnone hrank]
    cases hbest : (hits permits t).argmax lookupRank with
    | none => simp
    | some rule =>
        simp [hpermits rule (List.mem_of_mem_filter (List.argmax_mem hbest))]

/-! ## Sets of ports -/

variable {port : UInt16}

namespace Ports

@[simp] theorem mem_add {p : Ports} {q : UInt16} :
    q ∈ p.add port ↔ q ∈ p ∨ q = port := by
  unfold add
  split
  next hmem =>
    constructor
    · exact Or.inl
    · intro h
      rcases h with h | rfl
      · exact h
      · exact hmem
  next => simp

theorem has_iff {p : Ports} : p.has port = true ↔ 0 ∈ p ∨ port ∈ p := by
  simp [has, hasExplicit]

theorem has_of_isSubsetOf {p p2 : Ports} (h : p.isSubsetOf p2 = true)
    (hport : p.has port = true) : p2.has port = true := by
  simp only [isSubsetOf, has_iff, or_self] at h
  rw [has_iff] at hport ⊢
  split_ifs at h with hany2 hany
  · exact Or.inl hany2
  · rcases hport with hport | hport
    · exact absurd hport hany
    · simpa [has_iff] using List.all_eq_true.mp h port hport

/-- Unless one set is part of the other, the intersection lists its ports one
by one. -/
theorem intersection_spec {p p2 : Ports} (h : ¬ p.isSubsetOf p2 = true) :
    0 ∉ p.intersection p2 ∧ ∀ port, port ∈ p.intersection p2 ↔
      p.has port = true ∧ p2.has port = true := by
  simp only [isSubsetOf, has_iff, or_self] at h
  by_cases hany2 : (0 : UInt16) ∈ p2
  · simp [hany2] at h
  · by_cases hany : (0 : UInt16) ∈ p
    · have heq : p.intersection p2 = p2 := by
        simp [intersection, has_iff, hany]
      rw [heq]
      exact ⟨hany2, fun port => by simp [has_iff, hany, hany2]⟩
    · have heq : p.intersection p2 = p.filter p2.has := by
        simp [intersection, has_iff, hany, hany2]
      rw [heq]
      refine ⟨fun hmem => hany (List.mem_of_mem_filter hmem), fun port => ?_⟩
      simp [List.mem_filter, has_iff, hany]

end Ports

variable {network : ContivRule → IPNet} {ip : IP}

theorem mem_addAllowedPort {ports : Ports × Ports} {protocol : ProtocolType} :
    port ∈ portsOf (addAllowedPort network ip ports rule) protocol ↔
      port ∈ portsOf ports protocol ∨
        (rule.action = .permit ∧ networkMatches (network rule) ip = true ∧
          rule.protocol = protocol ∧ rule.destPort = port) := by
  have hpermit : rule.action = .permit ↔ rule.action ≠ .deny := by
    cases rule.action <;> simp
  have hnetwork : networkMatches (network rule) ip = true ↔
      ¬ (0 < (network rule).ip.length ∧ ¬ (network rule).contains ip = true) := by
    rw [not_and_not_right, networkMatches, Bool.or_eq_true, beq_iff_eq]
    constructor
    · intro h hpos
      rcases h with h | h
      · omega
      · exact h
    · intro h
      rcases Nat.eq_zero_or_pos (network rule).ip.length with hzero | hpos
      · exact Or.inl hzero
      · exact Or.inr (h hpos)
  rw [hpermit, hnetwork]
  unfold addAllowedPort
  split_ifs with hdeny hmiss
  · simp [hdeny]
  · constructor
    · exact Or.inl
    · intro h
      rcases h with h | h
      · exact h
      · exact absurd hmiss h.2.1
  · have hadds : (rule.action ≠ .deny ∧ ¬ (0 < (network rule).ip.length ∧
          ¬ (network rule).contains ip = true) ∧
        rule.protocol = protocol ∧ rule.destPort = port) ↔
        rule.protocol = protocol ∧ rule.destPort = port :=
      ⟨fun h => h.2.2, fun h => ⟨hdeny, hmiss, h⟩⟩
    rw [hadds]
    cases rule.protocol <;> cases protocol <;>
      simp [portsOf, @eq_comm _ port]

theorem mem_allowedPorts {rules : List ContivRule} {protocol : ProtocolType} :
    port ∈ portsOf (allowedPorts network ip rules) protocol ↔
      ∃ rule ∈ rules, rule.action = .permit ∧
        networkMatches (network rule) ip = true ∧
        rule.protocol = protocol ∧ rule.destPort = port := by
  unfold allowedPorts
  induction rules using List.reverseRecOn with
  | nil => cases protocol <;> simp [portsOf]
  | append_singleton rules rule ih =>
      rw [List.foldl_append, List.foldl_cons, List.foldl_nil,
        mem_addAllowedPort, ih]
      simp only [List.mem_append, List.mem_singleton, or_and_right,
        exists_or, exists_eq_left]

/-! ## Restricting one protocol to one address -/

def PrefixNetworks (rules : List ContivRule) : Prop :=
  ∀ rule ∈ rules, rule.destNetwork.ip = [] ∨ rule.destNetwork.PrefixMask

section Restrict

variable {order : RangeOrder UInt16} {nsIndex rmtNsIndex : UInt32}
  {rmtIP : IPNet} {protocol : ProtocolType} {inPorts egPorts : Ports}
  {rules : List ContivRule} {t : Traffic}

section

variable (hrmt : rmtIP.OneHost)
include hrmt

theorem PrefixNetworks.restrict (h : PrefixNetworks rules) :
    PrefixNetworks (restrict order nsIndex rmtNsIndex rmtIP protocol inPorts
      egPorts rules) := by
  unfold SessionCache.restrict
  split
  · exact h
  · intro rule hrule
    simp only [List.mem_append, List.mem_filter, List.mem_map,
      List.mem_singleton] at hrule
    rcases hrule with (⟨hmem, _⟩ | ⟨port, _, rfl⟩) | rfl
    · exact h rule hmem
    · exact Or.inr hrmt.prefixMask
    · exact Or.inr hrmt.prefixMask

theorem combinedRule_matchesTraffic_iff {action : ActionType} {name : String} :
    (combinedRule nsIndex rmtNsIndex rmtIP protocol action name
      port).matchesTraffic t = true ↔
      norm t.destIP = norm rmtIP.ip ∧ protocol = t.protocol ∧
        portMatches port t.destPort = true := by
  have hne : rmtIP.ip ≠ [] := by
    intro hnil
    have hlen := hrmt.length
    simp [hnil] at hlen
  simp [combinedRule, ContivRule.matchesTraffic, networkMatches, IPNet.any,
    hne, hrmt.contains_iff, and_assoc]

theorem eq_of_isReplaced
    (hrule : rule.destNetwork.ip = [] ∨ rule.destNetwork.PrefixMask)
    (hreplaced : isReplaced rmtIP protocol rule = true)
    (hmatch : rule.matchesTraffic t = true) :
    norm t.destIP = norm rmtIP.ip ∧ t.protocol = protocol := by
  simp only [isReplaced, Bool.and_eq_true, beq_iff_eq, bne_iff_ne, ne_eq,
    List.length_eq_zero_iff] at hreplaced
  obtain ⟨⟨⟨hprotocol, hne⟩, hhost⟩, hequal⟩ := hreplaced
  simp only [ContivRule.matchesTraffic, Bool.and_eq_true, beq_iff_eq] at hmatch
  have hcontains : rule.destNetwork.contains t.destIP = true := by
    simpa [networkMatches, hne] using hmatch.1.1.1.2
  have hcomparable := (hrule.resolve_left hne).comparable_of_contains
    t.destValid hcontains
  rw [ipEqual_iff_norm hcomparable.valid hrmt.comparable.valid] at hequal
  exact ⟨(hcomparable.norm_eq_of_isHost hhost hcontains).trans hequal,
    hmatch.1.1.2.symm.trans hprotocol⟩

theorem hits_restrict_of_ne (h : PrefixNetworks rules)
    (hne : ¬ (norm t.destIP = norm rmtIP.ip ∧ t.protocol = protocol)) :
    hits (restrict order nsIndex rmtNsIndex rmtIP protocol inPorts egPorts
      rules) t = hits rules t := by
  have hcombined : ∀ action name port, (combinedRule nsIndex rmtNsIndex rmtIP
      protocol action name port).matchesTraffic t = false := by
    intro action name port
    rw [Bool.eq_false_iff]
    intro hmatch
    rw [combinedRule_matchesTraffic_iff hrmt] at hmatch
    exact hne ⟨hmatch.1, hmatch.2.1.symm⟩
  unfold restrict
  split
  · rfl
  · have hkept : hits (rules.filter (!isReplaced rmtIP protocol ·)) t =
        hits rules t := by
      unfold hits
      rw [List.filter_filter]
      apply List.filter_congr
      intro rule hrule
      by_cases hmatch : rule.matchesTraffic t = true
      · have hkeep : ¬ isReplaced rmtIP protocol rule = true :=
          fun hreplaced => hne (eq_of_isReplaced hrmt (h rule hrule)
            hreplaced hmatch)
        simp [hmatch, hkeep]
      · simp [hmatch]
    have hmap : ∀ ports : List UInt16, hits (ports.map fun port =>
        combinedRule nsIndex rmtNsIndex rmtIP protocol .permit
          (toString port.toNat) port) t = [] := by
      intro ports
      simp [hits, hcombined]
    have hlast : hits [combinedRule nsIndex rmtNsIndex rmtIP protocol .deny
        "NONE" 0] t = [] := by
      simp [hits, hcombined]
    unfold hits at hkept hmap hlast ⊢
    rw [List.filter_append, List.filter_append, hkept, hmap, hlast]
    simp

theorem lookupRank_lt_of_kept
    (hrule : rule.destNetwork.ip = [] ∨ rule.destNetwork.PrefixMask)
    (hkept : ¬ isReplaced rmtIP protocol rule = true)
    (hmatch : rule.matchesTraffic t = true)
    (hdest : norm t.destIP = norm rmtIP.ip)
    (hprotocol : t.protocol = protocol) :
    lookupRank rule < 2 * (8 * (norm rmtIP.ip).length) := by
  have hpos : 0 < (norm rmtIP.ip).length := by
    rcases norm_length hrmt.comparable.valid with hlen | hlen <;> omega
  have hlen : rule.destNetwork.matchLen < 8 * (norm rmtIP.ip).length := by
    by_cases hne : rule.destNetwork.ip = []
    · rw [IPNet.matchLen_of_ip_nil hne]
      omega
    · simp only [ContivRule.matchesTraffic, Bool.and_eq_true, beq_iff_eq]
        at hmatch
      have hcontains : rule.destNetwork.contains t.destIP = true := by
        simpa [networkMatches, hne] using hmatch.1.1.1.2
      have hcomparable := (hrule.resolve_left hne).comparable_of_contains
        t.destValid hcontains
      have hsame := ((hcomparable.contains_iff _).mp hcontains).1
      have hle := hcomparable.matchLen_le
      rw [← hsame, hdest] at hle
      refine lt_of_le_of_ne hle fun heq => hkept ?_
      have hhost : rule.destNetwork.isHost = true := by
        rw [hcomparable.isHost_iff, ← hsame, hdest, heq]
      have hequal : ipEqual rule.destNetwork.ip rmtIP.ip = true := by
        rw [ipEqual_iff_norm hcomparable.valid hrmt.comparable.valid,
          ← hcomparable.norm_eq_of_isHost hhost hcontains, hdest]
      simp [isReplaced, hmatch.1.1.2, hprotocol, hne, hhost, hequal]
  unfold lookupRank
  split <;> omega

theorem lookupPermits_restrict (h : PrefixNetworks rules)
    (hports : ¬ inPorts.isSubsetOf egPorts = true)
    (hdest : norm t.destIP = norm rmtIP.ip) (hprotocol : t.protocol = protocol) :
    lookupPermits (restrict order nsIndex rmtNsIndex rmtIP protocol inPorts
        egPorts rules) t = true ↔
      inPorts.has t.destPort = true ∧ egPorts.has t.destPort = true := by
  obtain ⟨hexplicit, hinter⟩ := Ports.intersection_spec hports
  let permit := fun port : UInt16 => combinedRule nsIndex rmtNsIndex rmtIP
    protocol .permit (toString port.toNat) port
  let deny := combinedRule nsIndex rmtNsIndex rmtIP protocol .deny "NONE" 0
  have hpermitRank : ∀ port ∈ inPorts.intersection egPorts,
      lookupRank (permit port) = 2 * (8 * (norm rmtIP.ip).length) + 1 := by
    intro port hport
    have hne : port ≠ 0 := fun hzero => hexplicit (hzero ▸ hport)
    simp [lookupRank, permit, combinedRule, hrmt.matchLen, hne]
  have hdenyRank : lookupRank deny = 2 * (8 * (norm rmtIP.ip).length) := by
    simp [lookupRank, deny, combinedRule, hrmt.matchLen]
  have hmem : ∀ rule, rule ∈ hits (restrict order nsIndex rmtNsIndex rmtIP
      protocol inPorts egPorts rules) t ↔
      (((rule ∈ rules ∧ ¬ isReplaced rmtIP protocol rule = true) ∨
        ∃ port ∈ inPorts.intersection egPorts, permit port = rule) ∨
        rule = deny) ∧ rule.matchesTraffic t = true := by
    intro rule
    simp only [restrict, if_neg hports, hits, List.mem_filter,
      List.mem_append, List.mem_map, List.mem_singleton,
      RangeOrder.mem_order, Bool.not_eq_true', Bool.not_eq_true]
    rfl
  have hdenyHit := (hmem deny).mpr ⟨Or.inr rfl,
    (combinedRule_matchesTraffic_iff hrmt).mpr
      ⟨hdest, hprotocol.symm, portMatches_zero _⟩⟩
  have hne : (hits (restrict order nsIndex rmtNsIndex rmtIP protocol inPorts
      egPorts rules) t).argmax lookupRank ≠ none := by
    intro hnone
    rw [List.argmax_eq_none] at hnone
    simp [hnone] at hdenyHit
  obtain ⟨best, hbest⟩ := Option.ne_none_iff_exists'.mp hne
  have hmax := fun rule (hrule : rule ∈ hits _ t) =>
    List.le_of_mem_argmax hrule hbest
  obtain ⟨hcases, hmatch⟩ := (hmem best).mp (List.argmax_mem hbest)
  rw [lookupPermits, hbest, ← hinter]
  simp only [beq_iff_eq]
  rcases hcases with (⟨hown, hkept⟩ | ⟨port, hport, rfl⟩) | rfl
  · -- An own rule ranks below the rule that denies the rest.
    have hlt := lookupRank_lt_of_kept hrmt (h best hown) hkept hmatch hdest
      hprotocol
    have hge := hmax deny hdenyHit
    omega
  · have hmatched := (combinedRule_matchesTraffic_iff hrmt).mp hmatch
    have heq : port = t.destPort := by
      have hne : port ≠ 0 := fun hzero => hexplicit (hzero ▸ hport)
      simpa [portMatches, hne] using hmatched.2.2
    simp [permit, combinedRule, ← heq, hport]
  · have hnot : t.destPort ∉ inPorts.intersection egPorts := by
      intro hport
      have hhit := (hmem (permit t.destPort)).mpr
        ⟨Or.inl (Or.inr ⟨_, hport, rfl⟩),
          (combinedRule_matchesTraffic_iff hrmt).mpr
            ⟨hdest, hprotocol.symm, by simp [portMatches]⟩⟩
      have hge := hmax _ hhit
      rw [hpermitRank _ hport, hdenyRank] at hge
      omega
    simp [deny, combinedRule, hnot]

/-- If the sender permits exactly its own ports, the restriction adds what the
receiver permits. -/
theorem lookupPermits_restrict_iff (h : PrefixNetworks rules)
    (hown : inPorts.has t.destPort = true ↔ lookupPermits rules t = true)
    (hdest : norm t.destIP = norm rmtIP.ip) (hprotocol : t.protocol = protocol) :
    lookupPermits (restrict order nsIndex rmtNsIndex rmtIP protocol inPorts
        egPorts rules) t = true ↔
      lookupPermits rules t = true ∧ egPorts.has t.destPort = true := by
  by_cases hports : inPorts.isSubsetOf egPorts = true
  · have hsame : restrict order nsIndex rmtNsIndex rmtIP protocol inPorts
        egPorts rules = rules := if_pos hports
    rw [hsame, ← hown]
    exact ⟨fun hin => ⟨hin, Ports.has_of_isSubsetOf hports hin⟩, fun hin => hin.1⟩
  · rw [lookupPermits_restrict hrmt h hports hdest hprotocol, hown]

end

theorem lookupPermits_restrict_both {orderTCP orderUDP : RangeOrder UInt16}
    {ing eg : Ports × Ports} (hrmt : rmtIP.OneHost)
    (h : PrefixNetworks rules)
    (hown : (portsOf ing t.protocol).has t.destPort = true ↔
      lookupPermits rules t = true)
    (hdest : norm t.destIP = norm rmtIP.ip) :
    lookupPermits (restrict orderUDP nsIndex rmtNsIndex rmtIP .udp ing.2 eg.2
        (restrict orderTCP nsIndex rmtNsIndex rmtIP .tcp ing.1 eg.1 rules)) t =
        true ↔
      lookupPermits rules t = true ∧
        (portsOf eg t.protocol).has t.destPort = true := by
  -- Only one of the two rounds is about the protocol of the connection.
  cases hprotocol : t.protocol with
  | tcp =>
      rw [hprotocol] at hown
      rw [lookupPermits_congr (hits_restrict_of_ne hrmt (h.restrict hrmt)
        (by simp [hprotocol]))]
      exact lookupPermits_restrict_iff hrmt h hown hdest hprotocol
  | udp =>
      rw [hprotocol] at hown
      have hfirst : lookupPermits (restrict orderTCP nsIndex rmtNsIndex rmtIP
          .tcp ing.1 eg.1 rules) t = lookupPermits rules t :=
        lookupPermits_congr (hits_restrict_of_ne hrmt h (by simp [hprotocol]))
      rw [← hfirst] at hown ⊢
      exact lookupPermits_restrict_iff hrmt (h.restrict hrmt) hown hdest hprotocol

end Restrict

/-! ## The loop over the namespaces -/

structure IngressShaped (rules : List ContivRule) : Prop where
  shape : DefaultDenyShaped rules
  anySource : ∀ rule ∈ rules, rule.srcNetwork.ip = [] ∧ rule.srcPort = 0
  networks : PrefixNetworks rules

structure EgressShaped (rules : List ContivRule) : Prop where
  shape : DefaultDenyShaped rules
  anyDestination : ∀ rule ∈ rules, rule.destNetwork.ip = [] ∧ rule.srcPort = 0

structure NamespaceConfig.Valid (nsConfig : NamespaceConfig) : Prop where
  oneHost : nsConfig.ipAddr.OneHost
  ingress : IngressShaped nsConfig.ingress
  egress : EgressShaped nsConfig.egress

/-- Every namespace has the address of one pod, and no two have the same. -/
structure Config.Valid (config : Config) : Prop where
  valid : ∀ ns c, config.lookup ns = some c → c.Valid
  distinct : ∀ ns ns' c c', config.lookup ns = some c →
    config.lookup ns' = some c' → norm c.ipAddr.ip = norm c'.ipAddr.ip → ns = ns'

theorem networkMatches_congr {n : IPNet} {x y : IP} (h : norm x = norm y) :
    networkMatches n x = networkMatches n y := by
  rw [networkMatches, networkMatches, contains_congr h]

theorem has_allowedPorts {rules : List ContivRule} {protocol : ProtocolType} :
    (portsOf (allowedPorts network ip rules) protocol).has port = true ↔
      ∃ rule ∈ rules, rule.action = .permit ∧
        networkMatches (network rule) ip = true ∧
        rule.protocol = protocol ∧
        portMatches rule.destPort port = true := by
  simp only [Ports.has_iff, mem_allowedPorts, portMatches, Bool.or_eq_true,
    beq_iff_eq]
  constructor
  · intro h
    rcases h with ⟨rule, hrule, ha, hn, hp, hport⟩ |
      ⟨rule, hrule, ha, hn, hp, hport⟩
    · exact ⟨rule, hrule, ha, hn, hp, Or.inl hport⟩
    · exact ⟨rule, hrule, ha, hn, hp, Or.inr hport⟩
  · intro h
    obtain ⟨rule, hrule, ha, hn, hp, hport | hport⟩ := h
    · exact Or.inl ⟨rule, hrule, ha, hn, hp, hport⟩
    · exact Or.inr ⟨rule, hrule, ha, hn, hp, hport⟩

section Loop

variable {orders : CombineOrders} {nsIndex : UInt32}
  {nsConfig : NamespaceConfig} {t : Traffic}

theorem has_ingressPorts {rules : List ContivRule}
    (h : IngressShaped rules) {dstIP : IPNet}
    (hdest : norm t.destIP = norm dstIP.ip) :
    (portsOf (getAllowedIngressPorts dstIP rules) t.protocol).has
        t.destPort = true ↔
      ∃ rule ∈ rules, rule.action = .permit ∧ rule.matchesTraffic t = true := by
  rw [getAllowedIngressPorts, has_allowedPorts]
  refine exists_congr fun rule => and_congr_right fun hrule =>
    and_congr_right fun _ => ?_
  have hsrc := h.anySource rule hrule
  rw [← networkMatches_congr hdest]
  simp [ContivRule.matchesTraffic, networkMatches, hsrc.1, hsrc.2, and_assoc]

theorem has_egressPorts {rules : List ContivRule}
    (h : EgressShaped rules) {srcIP : IPNet}
    (hsrc : norm t.srcIP = norm srcIP.ip) :
    (portsOf (getAllowedEgressPorts srcIP rules) t.protocol).has
        t.destPort = true ↔
      ∃ rule ∈ rules, rule.action = .permit ∧ rule.matchesTraffic t = true := by
  rw [getAllowedEgressPorts, has_allowedPorts]
  refine exists_congr fun rule => and_congr_right fun hrule =>
    and_congr_right fun _ => ?_
  have hdest := h.anyDestination rule hrule
  rw [← networkMatches_congr hsrc]
  simp [ContivRule.matchesTraffic, networkMatches, hdest.1, hdest.2, and_assoc]

variable {rmt : UInt32 × NamespaceConfig}

theorem PrefixNetworks.combineWith {rules : List ContivRule}
    (hrmt : rmt.2.ipAddr.OneHost) (h : PrefixNetworks rules) :
    PrefixNetworks (combineWith orders nsIndex nsConfig rules rmt) := by
  unfold SessionCache.combineWith
  split_ifs
  · exact h
  · exact h
  · exact (h.restrict hrmt).restrict hrmt
  · exact (h.restrict hrmt).restrict hrmt

theorem hits_combineWith_of_ne {rules : List ContivRule}
    (hrmt : rmt.2.ipAddr.OneHost) (h : PrefixNetworks rules)
    (hne : rmt.1 = nsIndex ∨ norm t.destIP ≠ norm rmt.2.ipAddr.ip) :
    hits (combineWith orders nsIndex nsConfig rules rmt) t = hits rules t := by
  unfold combineWith
  by_cases hself : rmt.1 = nsIndex
  · rw [if_pos hself]
  · have hdest := hne.resolve_left hself
    rw [if_neg hself]
    split
    · rfl
    · rw [hits_restrict_of_ne hrmt (h.restrict hrmt) (fun heq => hdest heq.1),
        hits_restrict_of_ne hrmt h (fun heq => hdest heq.1)]

theorem hits_foldl_combineWith_of_ne
    {rmts : List (UInt32 × NamespaceConfig)} {rules : List ContivRule}
    (hrmts : ∀ rmt ∈ rmts, rmt.2.ipAddr.OneHost ∧
      (rmt.1 = nsIndex ∨ norm t.destIP ≠ norm rmt.2.ipAddr.ip))
    (h : PrefixNetworks rules) :
    hits (rmts.foldl (combineWith orders nsIndex nsConfig) rules) t =
        hits rules t ∧
      PrefixNetworks
        (rmts.foldl (combineWith orders nsIndex nsConfig) rules) := by
  induction rmts generalizing rules with
  | nil => exact ⟨rfl, h⟩
  | cons rmt rmts ih =>
      rw [List.forall_mem_cons] at hrmts
      have hstep : hits (combineWith orders nsIndex nsConfig rules rmt) t =
          hits rules t :=
        hits_combineWith_of_ne hrmts.1.1 h hrmts.1.2
      rw [List.foldl_cons, ← hstep]
      exact ih hrmts.2 (h.combineWith hrmts.1.1)

theorem permitted_iff_of_hasDeny {rules : List ContivRule}
    (h : DefaultDenyShaped rules) (hdeny : hasDeny rules = true) :
    (∃ rule ∈ rules, rule.action = .permit ∧
      rule.matchesTraffic t = true) ↔ testTraffic rules t ≠ .denied := by
  rw [Ne, h.denied_iff]
  simp only [hdeny, true_and, not_not]

theorem not_denied_of_not_hasDeny {rules : List ContivRule}
    (h : DefaultDenyShaped rules) (hdeny : ¬ hasDeny rules = true) :
    testTraffic rules t ≠ .denied := by
  rw [Ne, h.denied_iff]
  exact fun hdenied => hdeny hdenied.1

theorem lookupPermits_combineWith {rules : List ContivRule}
    (hrmt : rmt.2.Valid) (hns : nsConfig.Valid) (hne : rmt.1 ≠ nsIndex)
    (hrules : PrefixNetworks rules)
    (hhits : hits rules t = hits nsConfig.ingress t)
    (hsrc : norm t.srcIP = norm nsConfig.ipAddr.ip)
    (hdest : norm t.destIP = norm rmt.2.ipAddr.ip) :
    lookupPermits (combineWith orders nsIndex nsConfig rules rmt) t = true ↔
      testTraffic nsConfig.ingress t ≠ .denied ∧
        testTraffic rmt.2.egress t ≠ .denied := by
  have hown : lookupPermits rules t = true ↔
      testTraffic nsConfig.ingress t ≠ .denied := by
    rw [lookupPermits_congr hhits, lookupPermits_iff_of_shaped hns.ingress.shape]
  unfold combineWith
  rw [if_neg hne]
  by_cases hdeny : hasDeny rmt.2.egress = true
  · have heg : (portsOf (getAllowedEgressPorts nsConfig.ipAddr rmt.2.egress)
        t.protocol).has t.destPort = true ↔
        testTraffic rmt.2.egress t ≠ .denied := by
      rw [has_egressPorts hrmt.egress hsrc,
        permitted_iff_of_hasDeny hrmt.egress.shape hdeny]
    have hing : (portsOf (if hasDeny nsConfig.ingress then
          getAllowedIngressPorts rmt.2.ipAddr nsConfig.ingress
        else ([0], [0])) t.protocol).has t.destPort = true ↔
        lookupPermits rules t = true := by
      rw [hown]
      split
      next hdeny' =>
        rw [has_ingressPorts hns.ingress hdest,
          permitted_iff_of_hasDeny hns.ingress.shape hdeny']
      next hdeny' =>
        have hnot : testTraffic nsConfig.ingress t ≠ .denied :=
          not_denied_of_not_hasDeny hns.ingress.shape hdeny'
        simp only [ne_eq, hnot, not_false_eq_true, iff_true]
        cases t.protocol <;> simp [portsOf, Ports.has_iff]
    rw [hdeny]
    simp only [Bool.not_true, Bool.false_eq_true, if_false]
    rw [← hown, ← heg]
    exact lookupPermits_restrict_both hrmt.oneHost hrules hing hdest
  · rw [Bool.not_eq_true] at hdeny
    have hnot : testTraffic rmt.2.egress t ≠ .denied :=
      not_denied_of_not_hasDeny hrmt.egress.shape (by simp [hdeny])
    simp only [hdeny, Bool.not_false, if_true, hown, hnot, ne_eq,
      not_false_eq_true, and_true]

end Loop

/-! ## All namespaces -/

theorem Config.Valid.range_valid {config : Config} (h : Config.Valid config)
    (orders : CombineOrders) :
    ∀ rmt ∈ range orders.config config, rmt.2.Valid := fun rmt hrmt =>
  h.valid rmt.1 rmt.2 (mem_range.mp hrmt)

/-- In the combined rules a connection is permitted if the sender permits it
and, should the destination be a pod of the host, the receiver as well. -/
theorem getCombinedIngressRules_permits_iff (orders : CombineOrders)
    {config : Config} (hconfig : Config.Valid config) {nsIndex : UInt32}
    {nsConfig : NamespaceConfig}
    (hns : config.lookup nsIndex = some nsConfig) {t : Traffic}
    (hsrc : ipEqual t.srcIP nsConfig.ipAddr.ip = true) :
    ∃ rules, getCombinedIngressRules orders config nsIndex = some rules ∧
      (lookupPermits rules t = true ↔ testTraffic nsConfig.ingress t ≠ .denied ∧
          ∀ rmtNs rmt, config.lookup rmtNs = some rmt → rmtNs ≠ nsIndex →
            ipEqual t.destIP rmt.ipAddr.ip = true →
              testTraffic rmt.egress t ≠ .denied) := by
  have hvalid := hconfig.valid nsIndex nsConfig hns
  have hrange := hconfig.range_valid orders
  have hequal : ∀ {rmtNs rmt}, config.lookup rmtNs = some rmt →
      (ipEqual t.destIP rmt.ipAddr.ip = true ↔
        norm t.destIP = norm rmt.ipAddr.ip) := fun hrmt =>
    ipEqual_iff_norm t.destValid (hconfig.valid _ _ hrmt).oneHost.comparable.valid
  have hsrc' : norm t.srcIP = norm nsConfig.ipAddr.ip :=
    (ipEqual_iff_norm t.srcValid hvalid.oneHost.comparable.valid).mp hsrc
  refine ⟨_, by rw [getCombinedIngressRules, hns]; rfl, ?_⟩
  by_cases hlocal : ∃ rmtNs rmt, config.lookup rmtNs = some rmt ∧
      rmtNs ≠ nsIndex ∧ norm t.destIP = norm rmt.ipAddr.ip
  · obtain ⟨rmtNs, rmt, hrmt, hne, hdest⟩ := hlocal
    obtain ⟨before, after, hsplit⟩ := List.append_of_mem
      (mem_range.mpr hrmt : (rmtNs, rmt) ∈ range orders.config config)
    -- No other namespace has the destination address.
    have hkeys := range_keys_nodup orders.config config
    rw [hsplit] at hkeys
    simp only [List.map_append, List.map_cons, List.nodup_append,
      List.nodup_cons, List.mem_map] at hkeys
    have hothers : ∀ other ∈ range orders.config config,
        other.1 ≠ rmtNs → other.2.ipAddr.OneHost ∧
          (other.1 = nsIndex ∨ norm t.destIP ≠ norm other.2.ipAddr.ip) := by
      intro other hother hkey
      refine ⟨(hrange other hother).oneHost, Or.inr fun heq => hkey ?_⟩
      exact hconfig.distinct _ _ _ _ (mem_range.mp hother) hrmt
        (heq.symm.trans hdest)
    have hbefore : ∀ other ∈ before, other.2.ipAddr.OneHost ∧
        (other.1 = nsIndex ∨ norm t.destIP ≠ norm other.2.ipAddr.ip) := by
      intro other hother
      apply hothers other (by rw [hsplit]; simp [hother])
      exact hkeys.2.2 other.1 ⟨other, hother, rfl⟩ rmtNs List.mem_cons_self
    have hafter : ∀ other ∈ after, other.2.ipAddr.OneHost ∧
        (other.1 = nsIndex ∨ norm t.destIP ≠ norm other.2.ipAddr.ip) := by
      intro other hother
      apply hothers other (by rw [hsplit]; simp [hother])
      exact fun hkey => hkeys.2.1.1 ⟨other, hother, hkey⟩
    have hpre : hits (before.foldl (combineWith orders nsIndex nsConfig)
        nsConfig.ingress) t = hits nsConfig.ingress t ∧ _ :=
      hits_foldl_combineWith_of_ne hbefore hvalid.ingress.networks
    have hrmtValid := hconfig.valid _ _ hrmt
    rw [hsplit, List.foldl_append, List.foldl_cons,
      lookupPermits_congr (hits_foldl_combineWith_of_ne hafter
        (hpre.2.combineWith hrmtValid.oneHost)).1,
      lookupPermits_combineWith hrmtValid hvalid hne hpre.2 hpre.1 hsrc' hdest]
    refine and_congr_right fun _ => ⟨fun hegress ns c hc _ hip => ?_,
      fun hall => hall rmtNs rmt hrmt hne ((hequal hrmt).mpr hdest)⟩
    have hsame : ns = rmtNs := hconfig.distinct _ _ _ _ hc hrmt
      (((hequal hc).mp hip).symm.trans hdest)
    subst hsame
    rw [hrmt, Option.some.injEq] at hc
    exact hc ▸ hegress
  · have hnone : ∀ other ∈ range orders.config config, other.2.ipAddr.OneHost ∧
          (other.1 = nsIndex ∨ norm t.destIP ≠ norm other.2.ipAddr.ip) := by
      intro other hother
      refine ⟨(hrange other hother).oneHost, ?_⟩
      by_contra hcon
      rw [not_or, not_not] at hcon
      exact hlocal ⟨other.1, other.2, mem_range.mp hother, hcon⟩
    rw [lookupPermits_congr (hits_foldl_combineWith_of_ne hnone
      hvalid.ingress.networks).1,
      lookupPermits_iff_of_shaped hvalid.ingress.shape]
    refine ⟨fun hown => ⟨hown, fun ns c hc hne hip => ?_⟩, fun h => h.1⟩
    exact absurd ⟨ns, c, hc, hne, (hequal hc).mp hip⟩ hlocal

/-! ## A client and a server on one host -/

def client : NamespaceConfig where
  ipAddr := ⟨v4InV6Prefix ++ [10, 1, 1, 1], cidrMask 32 32⟩
  ingress :=
    ⟨"tcp", .permit, .any, ⟨[10, 0, 0, 0], [255, 0, 0, 0]⟩, .tcp, 0, 0⟩ ::
      denyRest
  egress := []

def server : NamespaceConfig where
  ipAddr := ⟨v4InV6Prefix ++ [10, 1, 1, 2], cidrMask 32 32⟩
  ingress := []
  egress :=
    ⟨"web", .permit, ⟨[10, 1, 1, 1], [255, 255, 255, 255]⟩, .any, .tcp, 0,
      80⟩ :: denyRest

def clientAndServer : Config :=
  ((∅ : Config).insert 10 client).insert 20 server

theorem client_valid : client.Valid where
  oneHost := ⟨by decide, by decide⟩
  ingress := ⟨defaultDenyShaped_cons rfl, by decide,
    by unfold PrefixNetworks; decide⟩
  egress := ⟨defaultDenyShaped_nil, by decide⟩

theorem server_valid : server.Valid where
  oneHost := ⟨by decide, by decide⟩
  ingress := ⟨defaultDenyShaped_nil, by decide,
    by unfold PrefixNetworks; decide⟩
  egress := ⟨defaultDenyShaped_cons rfl, by decide⟩

theorem lookup_clientAndServer {ns : UInt32} {c : NamespaceConfig}
    (h : clientAndServer.lookup ns = some c) :
    ns = 20 ∧ c = server ∨ ns = 10 ∧ c = client := by
  have hmem := AList.mem_lookup_iff.mp h
  simpa [clientAndServer, AList.entries_insert] using hmem

theorem clientAndServer_valid : Config.Valid clientAndServer where
  valid := by
    intro ns c h
    rcases lookup_clientAndServer h with ⟨_, rfl⟩ | ⟨_, rfl⟩
    · exact server_valid
    · exact client_valid
  distinct := by
    intro ns ns' c c' h h' hip
    rcases lookup_clientAndServer h with ⟨rfl, rfl⟩ | ⟨rfl, rfl⟩ <;>
      rcases lookup_clientAndServer h' with ⟨rfl, rfl⟩ | ⟨rfl, rfl⟩
    · rfl
    · exact absurd hip (by decide)
    · exact absurd hip (by decide)
    · rfl

theorem getCombinedIngressRules_permits_webRequest :
    ∃ rules, getCombinedIngressRules ⟨.insertion, fun _ _ => .insertion⟩
        clientAndServer 10 = some rules ∧
      (lookupPermits rules webRequest = true ↔
        testTraffic client.ingress webRequest ≠ .denied ∧
          ∀ rmtNs rmt, clientAndServer.lookup rmtNs = some rmt →
            rmtNs ≠ 10 → ipEqual webRequest.destIP rmt.ipAddr.ip = true →
              testTraffic rmt.egress webRequest ≠ .denied) :=
  getCombinedIngressRules_permits_iff _ clientAndServer_valid
    (by decide) (by decide)

end ContivVPP.SessionCache
