import ContivVPP.AclResync
import ContivVPP.NetTextIPv6

/-!
# What a dump of ACLs says

`dumpVppACLConfig` translates ACL rules into Contiv rules and skips those that
no Contiv rule can express.  The list for an ACL then has fewer rules than the
ACL, and the cache takes the ACL for one with just these rules.  A range of port
zero only becomes a rule for all ports, a rule that asks for TCP flags becomes
one that does not, and a rule without a transport protocol makes the code
dereference a nil pointer.
-/

namespace ContivVPP.AclRenderer

open Net ContivVPP.Renderer GoMap RuleCache PartialLoops

/-! ## What an ACL rule matches -/

def textMatches (text : String) (ip : IP) : Bool :=
  text == "" || (parseCIDR text).any fun n => n.contains ip

def rangeMatches (range : Option PortRange) (port : UInt16) : Bool :=
  range.all fun range => decide
    (range.lowerPort.toUInt16 ≤ port ∧ port ≤ range.upperPort.toUInt16)

def PortRanges.matchesPorts (ranges : PortRanges) (t : Traffic) : Bool :=
  rangeMatches ranges.sourcePortRange t.srcPort &&
    rangeMatches ranges.destinationPortRange t.destPort

/-- The mask is applied to the flags of the packet, which are then compared.
The agent truncates both to a byte. -/
def TcpRule.matchesFlags (tcp : TcpRule) (flags : UInt8) : Bool :=
  flags &&& tcp.tcpFlagsMask.toUInt8 == tcp.tcpFlagsValue.toUInt8

/-- What a rule says about TCP and UDP packets.  The parts of a rule are looked
at in the order of the agent. -/
def IpRule.matchesTransport (ipRule : IpRule) (t : Traffic)
    (flags : UInt8) : Bool :=
  if ipRule.icmp then false
  else
    match ipRule.tcp, ipRule.udp with
    | some tcp, _ => t.protocol == .tcp && tcp.matchesPorts t &&
        tcp.matchesFlags flags
    | none, some udp => t.protocol == .udp && udp.matchesPorts t
    | none, none => !ipRule.other

def IpRule.withoutNetworks (ipRule : IpRule) : Bool :=
  ipRule.ip.all fun ip =>
    ip.sourceNetwork == "" && ip.destinationNetwork == ""

def isIPv4 (t : Traffic) : Bool :=
  (to4 t.srcIP).isSome && (to4 t.destIP).isSome

/-- The IP version of a rule is that of its networks.  Without any the agent
installs it for IPv4. -/
def IpRule.matchesNetworks (ipRule : IpRule) (t : Traffic) : Bool :=
  (!ipRule.withoutNetworks || isIPv4 t) &&
    ipRule.ip.all fun ip => textMatches ip.sourceNetwork t.srcIP &&
      textMatches ip.destinationNetwork t.destIP

def AclRule.matchesPacket (aclRule : AclRule) (t : Traffic)
    (flags : UInt8) : Bool :=
  match aclRule.aclMatches >>= AclMatches.ipRule with
  | none => false
  | some ipRule => ipRule.matchesNetworks t && ipRule.matchesTransport t flags

/-- The Contiv rule says the same as the ACL rule, of IPv4 packets if the latter
has no networks. -/
structure TranslatesTo (aclRule : AclRule) (rule : ContivRule) : Prop where
  id : rule.id = aclRule.ruleName
  action : aclRule.actions >>= dumpAction = some rule.action
  traffic : ∀ t flags, ((aclRule.aclMatches >>= AclMatches.ipRule).any
      IpRule.withoutNetworks → isIPv4 t) →
    rule.matchesTraffic t = aclRule.matchesPacket t flags

/-! ## Rules that can be represented -/

def singleOrAll (range : Option PortRange) : Bool :=
  range.all fun range =>
    range.lowerPort == range.upperPort && range.lowerPort.toUInt16 != 0 ||
      range.lowerPort == 0 && range.upperPort == maxPortNum

def PortRanges.representable (ranges : PortRanges) : Bool :=
  singleOrAll ranges.sourcePortRange && singleOrAll ranges.destinationPortRange

def TcpRule.withoutFlags (tcp : TcpRule) : Bool :=
  tcp.tcpFlagsMask.toUInt8 == 0 && tcp.tcpFlagsValue.toUInt8 == 0

def IpRule.representable (ipRule : IpRule) : Bool :=
  (ipRule.ip.all fun ip => (dumpNetwork ip.sourceNetwork).isSome &&
    (dumpNetwork ip.destinationNetwork).isSome) &&
  !(ipRule.icmp || ipRule.other) &&
  match ipRule.tcp, ipRule.udp with
  | some tcp, _ => tcp.withoutFlags && tcp.toPortRanges.representable
  | none, some udp => udp.representable
  | none, none => false

/-- The ACL rule can be expressed by a Contiv rule. -/
def AclRule.representable (aclRule : AclRule) : Bool :=
  (aclRule.actions >>= dumpAction).isSome &&
    (aclRule.aclMatches >>= AclMatches.ipRule).any IpRule.representable

/-! ## The translation of a rule -/

def IpRule.transport (ipRule : IpRule) : Option (ProtocolType × PortRanges) :=
  match ipRule.tcp, ipRule.udp with
  | some tcp, _ => some (.tcp, tcp.toPortRanges)
  | none, some udp => some (.udp, udp)
  | none, none => none

def dumpSide (side : IpNetworks → String) (ipRule : IpRule) : Option IPNet :=
  ipRule.ip.elim (some IPNet.any) fun ip => dumpNetwork (side ip)

structure RuleDump (aclRule : AclRule) (rule : ContivRule)
    (ipRule : IpRule) (ranges : PortRanges) : Prop where
  id : rule.id = aclRule.ruleName
  action : aclRule.actions >>= dumpAction = some rule.action
  ipRule_eq : aclRule.aclMatches >>= AclMatches.ipRule = some ipRule
  src : dumpSide IpNetworks.sourceNetwork ipRule = some rule.srcNetwork
  dest : dumpSide IpNetworks.destinationNetwork ipRule = some rule.destNetwork
  icmp : ipRule.icmp = false
  other : ipRule.other = false
  transport : ipRule.transport = some (rule.protocol, ranges)
  srcPort : dumpPort ranges.sourcePortRange = some rule.srcPort
  destPort : dumpPort ranges.destinationPortRange = some rule.destPort

theorem dumpPorts_eq_some_iff {id : String} {action : ActionType}
    {src dest : IPNet} {protocol : ProtocolType} {ranges : PortRanges}
    {rule : ContivRule} :
    dumpPorts id action src dest protocol ranges = some rule ↔
      rule.id = id ∧ rule.action = action ∧ rule.srcNetwork = src ∧
        rule.destNetwork = dest ∧ rule.protocol = protocol ∧
        dumpPort ranges.sourcePortRange = some rule.srcPort ∧
        dumpPort ranges.destinationPortRange = some rule.destPort := by
  obtain ⟨id', action', src', dest', protocol', srcPort, destPort⟩ := rule
  simp only [dumpPorts, bind_eq_some_iff, pure_eq_some_iff, ContivRule.mk.injEq]
  constructor
  · rintro ⟨_, hsrc, _, hdest, rfl, rfl, rfl, rfl, rfl, rfl, rfl⟩
    exact ⟨rfl, rfl, rfl, rfl, rfl, hsrc, hdest⟩
  · rintro ⟨rfl, rfl, rfl, rfl, rfl, hsrc, hdest⟩
    exact ⟨_, hsrc, _, hdest, rfl, rfl, rfl, rfl, rfl, rfl, rfl⟩

theorem dumpRule_eq_some_iff {aclRule : AclRule} {rule : ContivRule} :
    dumpRule aclRule = .ok (some rule) ↔
      ∃ ipRule ranges, RuleDump aclRule rule ipRule ranges := by
  constructor
  · intro h
    simp only [dumpRule] at h
    split at h
    · cases h
    · next action src dest ipRule hhead =>
        simp only [bind_eq_some_iff] at hhead
        obtain ⟨action', haction, aclMatches, hmatches, ipRule', hipRule,
          src', hsrc, dest', hdest, hif⟩ := hhead
        split_ifs at hif with hskip
        simp only [Option.some.injEq, Prod.mk.injEq] at hif
        obtain ⟨rfl, rfl, rfl, rfl⟩ := hif
        simp only [Bool.or_eq_true, not_or, Bool.not_eq_true] at hskip
        have hipRule' : aclRule.aclMatches >>= AclMatches.ipRule =
            some ipRule' := by
          rw [hmatches]
          exact hipRule
        have haction' : aclRule.actions >>= dumpAction = some action' :=
          Option.bind_eq_some_iff.mpr haction
        split at h
        · next tcp htcp =>
            obtain ⟨hid, hact, hs, hd, hp, hsp, hdp⟩ :=
              dumpPorts_eq_some_iff.mp (Except.ok.inj h)
            exact ⟨ipRule', tcp.toPortRanges, hid, hact ▸ haction', hipRule',
              hs ▸ hsrc, hd ▸ hdest, hskip.1, hskip.2,
              by simp [IpRule.transport, htcp, hp], hsp, hdp⟩
        · next udp htcp hudp =>
            obtain ⟨hid, hact, hs, hd, hp, hsp, hdp⟩ :=
              dumpPorts_eq_some_iff.mp (Except.ok.inj h)
            exact ⟨ipRule', udp, hid, hact ▸ haction', hipRule',
              hs ▸ hsrc, hd ▸ hdest, hskip.1, hskip.2,
              by simp [IpRule.transport, htcp, hudp, hp], hsp, hdp⟩
        · cases h
  · intro hdump
    obtain ⟨ipRule, ranges, h⟩ := hdump
    obtain ⟨aclMatches, hmatches, hipRule⟩ :=
      Option.bind_eq_some_iff.mp h.ipRule_eq
    have hsrc : (ipRule.ip.elim (some IPNet.any) fun ip =>
      dumpNetwork ip.sourceNetwork) = some rule.srcNetwork := h.src
    have hdest : (ipRule.ip.elim (some IPNet.any) fun ip =>
      dumpNetwork ip.destinationNetwork) = some rule.destNetwork := h.dest
    have hports := fun id action src dest protocol =>
      @dumpPorts_eq_some_iff id action src dest protocol ranges rule
    have htransport := h.transport
    simp only [dumpRule, h.action, hmatches, hipRule, hsrc, hdest, h.icmp,
      h.other, Bool.or_self, Bool.false_eq_true, if_false,
      Option.bind_eq_bind, Option.bind_some]
    cases htcp : ipRule.tcp with
    | some tcp =>
        simp only [IpRule.transport, htcp, Option.some.injEq,
          Prod.mk.injEq] at htransport
        simp only [htransport.2, Except.ok.injEq, hports]
        exact ⟨h.id, trivial, trivial, trivial, htransport.1.symm, h.srcPort,
          h.destPort⟩
    | none =>
        cases hudp : ipRule.udp with
        | some udp =>
            simp only [IpRule.transport, htcp, hudp, Option.some.injEq,
              Prod.mk.injEq] at htransport
            simp only [htransport.2, Except.ok.injEq, hports]
            exact ⟨h.id, trivial, trivial, trivial, htransport.1.symm,
              h.srcPort, h.destPort⟩
        | none => simp [IpRule.transport, htcp, hudp] at htransport

/-! ## Translated rules match the same packets -/

theorem networkMatches_dumpNetwork {text : String} {n : IPNet}
    (h : dumpNetwork text = some n) (ip : IP) :
    networkMatches n ip = textMatches text ip := by
  unfold dumpNetwork at h
  split_ifs at h with htext
  · have hlen : (n.ip.length == 0) = false := by
      rw [beq_eq_false_iff_ne]
      rcases (parseCIDR_block h).length with hlen | hlen <;> omega
    rw [networkMatches, textMatches, hlen, beq_eq_false_iff_ne.mpr htext, h]
    rfl
  · obtain rfl := Option.some.inj h
    simp [textMatches, not_not.mp htext]

theorem matchesNetworks_eq {ipRule : IpRule} {src dest : IPNet}
    (hsrc : dumpSide IpNetworks.sourceNetwork ipRule = some src)
    (hdest : dumpSide IpNetworks.destinationNetwork ipRule = some dest)
    {t : Traffic} (ht : ipRule.withoutNetworks = true → isIPv4 t = true) :
    ipRule.matchesNetworks t =
      (networkMatches src t.srcIP && networkMatches dest t.destIP) := by
  have hversion : (!ipRule.withoutNetworks || isIPv4 t) = true := by
    cases hnone : ipRule.withoutNetworks with
    | false => rfl
    | true => exact ht hnone
  rw [IpRule.matchesNetworks, hversion, Bool.true_and]
  cases hip : ipRule.ip with
  | none =>
      simp only [dumpSide, hip, Option.elim_none, Option.some.injEq] at hsrc hdest
      simp [← hsrc, ← hdest]
  | some ip =>
      simp only [dumpSide, hip, Option.elim_some] at hsrc hdest
      simp [networkMatches_dumpNetwork hsrc, networkMatches_dumpNetwork hdest]

def IpRule.matchesFlags (ipRule : IpRule) (flags : UInt8) : Bool :=
  ipRule.tcp.all fun tcp => tcp.matchesFlags flags

theorem matchesTransport_eq {ipRule : IpRule} {protocol : ProtocolType}
    {ranges : PortRanges} (hicmp : ipRule.icmp = false)
    (htransport : ipRule.transport = some (protocol, ranges)) (t : Traffic)
    (flags : UInt8) :
    ipRule.matchesTransport t flags =
      (protocol == t.protocol && ranges.matchesPorts t &&
        ipRule.matchesFlags flags) := by
  have hcomm : ∀ p : ProtocolType, (t.protocol == p) = (p == t.protocol) :=
    fun p => Bool.beq_comm
  cases htcp : ipRule.tcp with
  | some tcp =>
      simp only [IpRule.transport, htcp, Option.some.injEq, Prod.mk.injEq]
        at htransport
      simp [IpRule.matchesTransport, IpRule.matchesFlags, hicmp, htcp,
        ← htransport.1, ← htransport.2, hcomm]
  | none =>
      cases hudp : ipRule.udp with
      | some udp =>
          simp only [IpRule.transport, htcp, hudp, Option.some.injEq,
            Prod.mk.injEq] at htransport
          simp [IpRule.matchesTransport, IpRule.matchesFlags, hicmp, htcp,
            hudp, ← htransport.1, ← htransport.2, hcomm]
      | none => simp [IpRule.transport, htcp, hudp] at htransport

theorem RuleDump.matchesPacket_eq {aclRule : AclRule} {rule : ContivRule}
    {ipRule : IpRule} {ranges : PortRanges}
    (h : RuleDump aclRule rule ipRule ranges) {t : Traffic}
    (ht : ipRule.withoutNetworks = true → isIPv4 t = true)
    (flags : UInt8) :
    aclRule.matchesPacket t flags = (networkMatches rule.srcNetwork t.srcIP &&
        networkMatches rule.destNetwork t.destIP &&
        (rule.protocol == t.protocol && ranges.matchesPorts t &&
          ipRule.matchesFlags flags)) := by
  simp only [AclRule.matchesPacket, h.ipRule_eq,
    matchesNetworks_eq h.src h.dest ht,
    matchesTransport_eq h.icmp h.transport]

/-! ## Ports -/

theorem dumpPort_of_singleOrAll {range : Option PortRange}
    (h : singleOrAll range = true) :
    ∃ port, dumpPort range = some port ∧
      ∀ p, portMatches port p = rangeMatches range p := by
  cases range with
  | none => exact ⟨0, rfl, fun p => by simp [rangeMatches]⟩
  | some range =>
      obtain ⟨lower, upper⟩ := range
      simp only [singleOrAll, Option.all_some, Bool.or_eq_true,
        Bool.and_eq_true, beq_iff_eq, bne_iff_ne] at h
      rcases h with ⟨rfl, hne⟩ | ⟨rfl, rfl⟩
      · refine ⟨lower.toUInt16, by simp [dumpPort], fun p => ?_⟩
        rw [Bool.eq_iff_iff]
        simp only [portMatches, rangeMatches, Option.all_some,
          Bool.or_eq_true, beq_iff_eq, hne, false_or, decide_eq_true_eq]
        constructor
        · intro heq
          rw [heq]
          exact ⟨UInt16.le_refl _, UInt16.le_refl _⟩
        · intro hboth
          exact UInt16.le_antisymm hboth.1 hboth.2
      · refine ⟨0, by simp [dumpPort], fun p => ?_⟩
        have hmax : p ≤ maxPortNum.toUInt16 :=
          UInt16.le_iff_toNat_le.mpr (Nat.le_of_lt_succ p.toNat_lt)
        simp [rangeMatches, hmax]

theorem exists_portMatches (port : UInt16) :
    ∃ p, p ≠ 0 ∧ portMatches port p = true := by
  by_cases hport : port = 0
  · exact ⟨1, by decide, by simp [hport]⟩
  · exact ⟨port, hport, by simp [portMatches]⟩

theorem exists_mistranslated {range : Option PortRange} {port : UInt16}
    (hdump : dumpPort range = some port) (h : singleOrAll range = false) :
    ∃ p, p ≠ 0 ∧ portMatches port p = true ∧ rangeMatches range p = false := by
  cases range with
  | none => simp [singleOrAll] at h
  | some range =>
      obtain ⟨lower, upper⟩ := range
      simp only [dumpPort] at hdump
      split_ifs at hdump with hskip
      obtain rfl := Option.some.inj hdump
      have heq : lower = upper := by
        by_contra hne
        apply hskip
        refine ⟨hne, ?_⟩
        by_contra hall
        simp only [not_or, not_not] at hall
        simp [singleOrAll, hall.1, hall.2] at h
      subst heq
      have hzero : lower.toUInt16 = 0 := by
        by_contra hne
        simp [singleOrAll, hne] at h
      exact ⟨1, by decide, by simp [hzero], by simp [rangeMatches, hzero]⟩

/-! ## Representable rules -/

theorem withoutFlags_iff {tcp : TcpRule} :
    tcp.withoutFlags = true ↔ ∀ flags, tcp.matchesFlags flags = true := by
  simp only [TcpRule.withoutFlags, TcpRule.matchesFlags, Bool.and_eq_true,
    beq_iff_eq]
  constructor
  · intro h flags
    rw [h.1, h.2, UInt8.and_zero]
  · intro h
    have hvalue : tcp.tcpFlagsValue.toUInt8 = 0 := by
      rw [← h 0, UInt8.zero_and]
    have hall := h (-1)
    rw [UInt8.neg_one_and, hvalue] at hall
    exact ⟨hall, hvalue⟩

theorem exists_networkMatches {text : String} {n : IPNet}
    (h : dumpNetwork text = some n) :
    ∃ ip, ValidIP ip ∧ networkMatches n ip = true ∧
      (text = "" → (to4 ip).isSome = true) := by
  unfold dumpNetwork at h
  split_ifs at h with htext
  · have hblock := parseCIDR_block h
    refine ⟨n.ip, hblock.length, ?_, fun hnone => absurd hnone htext⟩
    have hself : n.contains n.ip = true :=
      (hblock.comparable.contains_iff n.ip).mpr ⟨rfl, rfl⟩
    simp [networkMatches, hself]
  · obtain rfl := Option.some.inj h
    exact ⟨[0, 0, 0, 0], by decide, networkMatches_any _, fun _ => rfl⟩

theorem exists_matches_dumpSide {side : IpNetworks → String}
    {ipRule : IpRule} {n : IPNet} (h : dumpSide side ipRule = some n) :
    ∃ ip, ValidIP ip ∧ networkMatches n ip = true ∧
      ((∀ ip ∈ ipRule.ip, side ip = "") → (to4 ip).isSome = true) := by
  cases hip : ipRule.ip with
  | none =>
      simp only [dumpSide, hip, Option.elim_none, Option.some.injEq] at h
      exact ⟨[0, 0, 0, 0], by decide, by rw [← h]; exact networkMatches_any _,
        fun _ => rfl⟩
  | some ip =>
      simp only [dumpSide, hip, Option.elim_some] at h
      obtain ⟨a, hvalid, hmatches, hversion⟩ := exists_networkMatches h
      exact ⟨a, hvalid, hmatches, fun hnone => hversion (hnone ip rfl)⟩

section RuleDump

variable {aclRule : AclRule} {rule : ContivRule} {ipRule : IpRule}
  {ranges : PortRanges}

section

variable (h : RuleDump aclRule rule ipRule ranges)
include h

theorem RuleDump.exists_traffic {srcPort destPort : UInt16}
    (hne : destPort ≠ 0) (hsrc : portMatches rule.srcPort srcPort = true)
    (hdest : portMatches rule.destPort destPort = true) :
    ∃ t : Traffic, t.srcPort = srcPort ∧ t.destPort = destPort ∧
      rule.matchesTraffic t = true ∧
      (ipRule.withoutNetworks = true → isIPv4 t = true) := by
  obtain ⟨srcIP, hsrcIP, hsrcMatch, hsrcV4⟩ := exists_matches_dumpSide h.src
  obtain ⟨destIP, hdestIP, hdestMatch, hdestV4⟩ :=
    exists_matches_dumpSide h.dest
  refine ⟨⟨srcIP, destIP, rule.protocol, srcPort, destPort, hsrcIP, hdestIP,
    hne⟩, rfl, rfl, ?_, fun hnone => ?_⟩
  · simp [ContivRule.matchesTraffic, hsrcMatch, hdestMatch, hsrc, hdest]
  · simp only [IpRule.withoutNetworks, Option.all_eq_true, Bool.and_eq_true,
      beq_iff_eq] at hnone
    rw [isIPv4, hsrcV4 fun ip hip => (hnone ip hip).1,
      hdestV4 fun ip hip => (hnone ip hip).2]
    rfl

theorem RuleDump.of_translated (htranslates : TranslatesTo aclRule rule)
    {t : Traffic}
    (ht : rule.matchesTraffic t = true ∧ (ipRule.withoutNetworks = true →
      isIPv4 t = true)) (flags : UInt8) :
    rangeMatches ranges.sourcePortRange t.srcPort = true ∧
      rangeMatches ranges.destinationPortRange t.destPort = true ∧
      ipRule.matchesFlags flags = true := by
  have heq := htranslates.traffic t flags (by simpa [h.ipRule_eq] using ht.2)
  rw [ht.1, h.matchesPacket_eq ht.2] at heq
  have heq := heq.symm
  simp only [PortRanges.matchesPorts, Bool.and_eq_true] at heq
  exact ⟨heq.2.1.2.1, heq.2.1.2.2, heq.2.2⟩

theorem RuleDump.ports_representable (htranslates : TranslatesTo aclRule rule) :
    ranges.representable = true := by
  rw [PortRanges.representable, Bool.and_eq_true]
  obtain ⟨src, _, hsrc⟩ := exists_portMatches rule.srcPort
  obtain ⟨dest, hdestNe, hdest⟩ := exists_portMatches rule.destPort
  constructor
  · by_contra hnot
    obtain ⟨p, _, hmatch, hmiss⟩ :=
      exists_mistranslated h.srcPort (Bool.eq_false_of_not_eq_true hnot)
    obtain ⟨t, rfl, _, ht⟩ := h.exists_traffic hdestNe hmatch hdest
    rw [(h.of_translated htranslates ht 0).1] at hmiss
    cases hmiss
  · by_contra hnot
    obtain ⟨p, hp, hmatch, hmiss⟩ :=
      exists_mistranslated h.destPort (Bool.eq_false_of_not_eq_true hnot)
    obtain ⟨t, _, rfl, ht⟩ := h.exists_traffic hp hsrc hmatch
    rw [(h.of_translated htranslates ht 0).2.1] at hmiss
    cases hmiss

theorem RuleDump.networks_valid :
    (ipRule.ip.all fun ip => (dumpNetwork ip.sourceNetwork).isSome &&
      (dumpNetwork ip.destinationNetwork).isSome) = true := by
  have hsrc := h.src
  have hdest := h.dest
  cases hip : ipRule.ip with
  | none => rfl
  | some ip =>
      simp only [dumpSide, hip, Option.elim_some] at hsrc hdest
      simp [hsrc, hdest]

theorem RuleDump.representable (htranslates : TranslatesTo aclRule rule) :
    aclRule.representable = true := by
  obtain ⟨src, _, hsrc⟩ := exists_portMatches rule.srcPort
  obtain ⟨dest, hdestNe, hdest⟩ := exists_portMatches rule.destPort
  obtain ⟨t, _, _, ht⟩ := h.exists_traffic hdestNe hsrc hdest
  have hflags := fun flags => (h.of_translated htranslates ht flags).2.2
  have hports := h.ports_representable htranslates
  have htransport := h.transport
  have hipRule : ipRule.representable = true := by
    rw [IpRule.representable, h.networks_valid, h.icmp, h.other]
    cases htcp : ipRule.tcp with
    | some tcp =>
        simp only [IpRule.transport, htcp, Option.some.injEq,
          Prod.mk.injEq] at htransport
        simp only [IpRule.matchesFlags, htcp, Option.all_some] at hflags
        simp [htransport.2, hports, withoutFlags_iff.mpr hflags]
    | none =>
        cases hudp : ipRule.udp with
        | some udp =>
            simp only [IpRule.transport, htcp, hudp, Option.some.injEq,
              Prod.mk.injEq] at htransport
            simp [htransport.2, hports]
        | none => simp [IpRule.transport, htcp, hudp] at htransport
  rw [AclRule.representable, h.action, h.ipRule_eq]
  simp [hipRule]

end

end RuleDump

theorem exists_dumpSide {side : IpNetworks → String} {ipRule : IpRule}
    (h : ∀ ip ∈ ipRule.ip, (dumpNetwork (side ip)).isSome = true) :
    ∃ n, dumpSide side ipRule = some n := by
  cases hip : ipRule.ip with
  | none => exact ⟨IPNet.any, by simp [dumpSide, hip]⟩
  | some ip =>
      obtain ⟨n, hn⟩ := Option.isSome_iff_exists.mp (h ip hip)
      exact ⟨n, by simp [dumpSide, hip, hn]⟩

theorem exists_transport {ipRule : IpRule} (h : ipRule.representable = true) :
    ∃ protocol ranges, ipRule.transport = some (protocol, ranges) ∧
      ranges.representable = true ∧
      ∀ flags, ipRule.matchesFlags flags = true := by
  rw [IpRule.representable, Bool.and_eq_true] at h
  cases htcp : ipRule.tcp with
  | some tcp =>
      have htransport := h.2
      simp only [htcp, Bool.and_eq_true] at htransport
      refine ⟨.tcp, tcp.toPortRanges, by simp [IpRule.transport, htcp],
        htransport.2, fun flags => ?_⟩
      simp [IpRule.matchesFlags, htcp, withoutFlags_iff.mp htransport.1 flags]
  | none =>
      cases hudp : ipRule.udp with
      | some udp =>
          have htransport := h.2
          simp only [htcp, hudp] at htransport
          refine ⟨.udp, udp, by simp [IpRule.transport, htcp, hudp],
            htransport, fun flags => ?_⟩
          simp [IpRule.matchesFlags, htcp]
      | none =>
          have hnone := h.2
          simp [htcp, hudp] at hnone

theorem dumpRule_of_representable {aclRule : AclRule}
    (h : aclRule.representable = true) :
    ∃ rule, dumpRule aclRule = .ok (some rule) ∧ TranslatesTo aclRule rule := by
  rw [AclRule.representable, Bool.and_eq_true] at h
  obtain ⟨action, haction⟩ := Option.isSome_iff_exists.mp h.1
  obtain ⟨ipRule, hipRule, hrep⟩ := (Option.any_eq_true _ _).mp h.2
  obtain ⟨protocol, ranges, htransport, hports, hflags⟩ :=
    exists_transport hrep
  rw [PortRanges.representable, Bool.and_eq_true] at hports
  obtain ⟨srcPort, hsrcPort, hsrcMatch⟩ := dumpPort_of_singleOrAll hports.1
  obtain ⟨destPort, hdestPort, hdestMatch⟩ :=
    dumpPort_of_singleOrAll hports.2
  simp only [IpRule.representable, Bool.and_eq_true, Bool.not_eq_true',
    Bool.or_eq_false_iff] at hrep
  have hnetworks : ∀ ip ∈ ipRule.ip,
      (dumpNetwork ip.sourceNetwork).isSome = true ∧
        (dumpNetwork ip.destinationNetwork).isSome = true := by
    intro ip hip
    have hall := hrep.1.1
    rw [Option.mem_def] at hip
    rw [hip, Option.all_some, Bool.and_eq_true] at hall
    exact hall
  obtain ⟨src, hsrc⟩ := exists_dumpSide fun ip hip => (hnetworks ip hip).1
  obtain ⟨dest, hdest⟩ := exists_dumpSide fun ip hip => (hnetworks ip hip).2
  have hdump : RuleDump aclRule ⟨aclRule.ruleName, action, src, dest,
      protocol, srcPort, destPort⟩ ipRule ranges :=
    ⟨rfl, haction, hipRule, hsrc, hdest, hrep.1.2.1, hrep.1.2.2, htransport,
      hsrcPort, hdestPort⟩
  refine ⟨_, dumpRule_eq_some_iff.mpr ⟨ipRule, ranges, hdump⟩, rfl, haction,
    fun t flags ht => ?_⟩
  rw [hdump.matchesPacket_eq (by simpa [hipRule] using ht), hflags,
    PortRanges.matchesPorts, ← hsrcMatch, ← hdestMatch,
    ContivRule.matchesTraffic, Bool.and_true]
  simp only [Bool.and_assoc]

/-! ## Whole dumps -/

theorem dumpRules_cons (aclRule : AclRule) (rules : List AclRule) :
    dumpRules (aclRule :: rules) = (do
      let rule ← dumpRule aclRule
      let dumped ← dumpRules rules
      return rule.toList ++ dumped) := by
  simp only [dumpRules, List.mapM_cons, bind_assoc, pure_bind]
  congr 1
  funext rule
  congr 1
  funext dumped
  cases rule <;> rfl

variable {rules : List AclRule}

theorem dumpRules_of_representable
    (h : ∀ aclRule ∈ rules, aclRule.representable = true) :
    ∃ dumped, dumpRules rules = .ok dumped ∧
      List.Forall₂ TranslatesTo rules dumped := by
  induction rules with
  | nil => exact ⟨[], rfl, .nil⟩
  | cons aclRule rules ih =>
      obtain ⟨rule, hrule, htranslates⟩ :=
        dumpRule_of_representable (h aclRule List.mem_cons_self)
      obtain ⟨dumped, hdumped, hall⟩ :=
        ih fun aclRule' hmem => h aclRule' (List.mem_cons_of_mem _ hmem)
      refine ⟨rule :: dumped, ?_, .cons htranslates hall⟩
      rw [dumpRules_cons, hrule, hdumped]
      rfl

theorem length_dumpRules_le {dumped : List ContivRule}
    (h : dumpRules rules = .ok dumped) :
    dumped.length ≤ rules.length := by
  induction rules generalizing dumped with
  | nil =>
      obtain rfl := Except.ok.inj h
      exact le_rfl
  | cons aclRule rules ih =>
      rw [dumpRules_cons, bind_eq_ok_iff] at h
      obtain ⟨rule, _, h⟩ := h
      rw [bind_eq_ok_iff] at h
      obtain ⟨rest, hrest, h⟩ := h
      obtain rfl := Except.ok.inj h
      have hle := ih hrest
      cases rule <;> simp <;> omega

theorem dumpRules_representable {dumped : List ContivRule}
    (h : dumpRules rules = .ok dumped)
    (hall : List.Forall₂ TranslatesTo rules dumped) :
    ∀ aclRule ∈ rules, aclRule.representable = true := by
  induction rules generalizing dumped with
  | nil => simp
  | cons aclRule rules ih =>
      have hlen := hall.length_eq
      rw [dumpRules_cons, bind_eq_ok_iff] at h
      obtain ⟨rule, hrule, h⟩ := h
      rw [bind_eq_ok_iff] at h
      obtain ⟨rest, hrest, h⟩ := h
      obtain rfl := Except.ok.inj h
      have hle := length_dumpRules_le hrest
      cases rule with
      | none =>
          simp at hlen
          omega
      | some rule =>
          obtain ⟨htranslates, hall⟩ := List.forall₂_cons.mp hall
          obtain ⟨ipRule, ranges, hdump⟩ := dumpRule_eq_some_iff.mp hrule
          intro aclRule' hmem
          rcases List.mem_cons.mp hmem with rfl | hmem
          · exact hdump.representable htranslates
          · exact ih hrest hall aclRule' hmem

/-- The list for an ACL has just the rules that can be represented, in order and
with their meaning, and none of the rules of the ACL is missing. -/
structure ListsRules (acl : Acl) (list : ContivRuleList Acl) : Prop where
  exact : ∃ rules, list.rules = some rules ∧
    List.Forall₂ TranslatesTo (acl.rules.filter AclRule.representable) rules
  complete : ∃ rules, list.rules = some rules ∧
    List.Forall₂ TranslatesTo acl.rules rules

def Acl.Assigned (acl : Acl) : Prop :=
  ∃ d x, acl.Lists d x

/-- The dump does not crash, and has a list for each ACL with interfaces that
says what the ACL says. -/
def DumpsExactly (aclDump : List Acl) : Prop :=
  ∃ lists, dumpVppACLConfig aclDump = .ok lists ∧ ∀ acl ∈ aclDump, acl.Assigned →
      ∃ d, ∃ list ∈ lists d, DumpedAs acl d list ∧ ListsRules acl list

theorem DumpedAs.dumpRules {acl : Acl} {d : TrafficDirection}
    {list : ContivRuleList Acl} (h : DumpedAs acl d list) :
    ∃ rules, AclRenderer.dumpRules acl.rules = .ok rules ∧
      list.rules = some rules := by
  unfold DumpedAs dumpACL at h
  split at h
  · cases h
  · rw [bind_eq_ok_iff] at h
    obtain ⟨rules, hrules, h⟩ := h
    have heq := congrArg Prod.snd (Option.some.inj (Except.ok.inj h))
    exact ⟨rules, hrules, (congrArg ContivRuleList.rules heq).symm⟩

theorem exists_dumpACL {acl : Acl} (h : acl.Assigned → ∀ aclRule ∈ acl.rules,
      aclRule.representable = true) : ∃ entry, dumpACL acl = .ok entry := by
  unfold dumpACL
  cases hifs : acl.interfaces >>= dumpInterfaces with
  | none => exact ⟨none, rfl⟩
  | some entry =>
      obtain ⟨d, set⟩ := entry
      obtain ⟨interfaces, hinterfaces, hdump⟩ :=
        Option.bind_eq_some_iff.mp hifs
      obtain ⟨hne, hset⟩ := dumpInterfaces_eq_some hdump
      obtain ⟨x, hx⟩ := Finset.nonempty_iff_ne_empty.mpr hne
      rw [hset, List.mem_toFinset] at hx
      obtain ⟨dumped, hdumped, _⟩ :=
        dumpRules_of_representable (h ⟨d, x, interfaces, hinterfaces, hx⟩)
      simp only [hdumped]
      exact ⟨_, rfl⟩

/-- A dump is read as it should be just if every rule of an ACL with interfaces
can be represented. -/
theorem dumpsExactly_iff (aclDump : List Acl) : DumpsExactly aclDump ↔
      ∀ acl ∈ aclDump, acl.Assigned →
        ∀ aclRule ∈ acl.rules, aclRule.representable = true := by
  constructor
  · intro h acl hacl hassigned
    obtain ⟨lists, _, hlists⟩ := h
    obtain ⟨d, list, _, hdumped, hrules⟩ := hlists acl hacl hassigned
    obtain ⟨rules, hdump, hlist⟩ := hdumped.dumpRules
    obtain ⟨rules', hlist', hall⟩ := hrules.complete
    obtain rfl := Option.some.inj (hlist.symm.trans hlist')
    exact dumpRules_representable hdump hall
  · intro h
    obtain ⟨dumped, hdumped⟩ :=
      exists_mapM_ok fun acl hacl => exists_dumpACL (h acl hacl)
    have hdump : ∃ lists, dumpVppACLConfig aclDump = .ok lists := by
      rw [dumpVppACLConfig, hdumped]
      exact ⟨_, rfl⟩
    obtain ⟨lists, hlists⟩ := hdump
    refine ⟨lists, hlists, fun acl hacl hassigned => ?_⟩
    obtain ⟨d, x, hx⟩ := hassigned
    obtain ⟨d', list, hlist⟩ := exists_dumpedAs hlists hacl hx
    obtain ⟨rules, hrules, heq⟩ := hlist.dumpRules
    have hrep := h acl hacl ⟨d, x, hx⟩
    obtain ⟨rules', hrules', hall⟩ := dumpRules_of_representable hrep
    obtain rfl := Except.ok.inj (hrules.symm.trans hrules')
    refine ⟨d', list, (mem_dump hlists).mpr ⟨acl, hacl, hlist⟩, hlist, ?_, ?_⟩
    · rw [List.filter_eq_self.mpr hrep]
      exact ⟨rules, heq, hall⟩
    · exact ⟨rules, heq, hall⟩

/-! ## A dump that is misread -/

def onTap (rules : List AclRule) : Acl :=
  ⟨"ingress-1F", rules, some ⟨["tap1"], []⟩⟩

def denyIP : AclRule :=
  ⟨"IP:ANY", some .deny, some ⟨some ⟨none, false, none, none, false⟩⟩⟩

def permitTCP (range : PortRange) : AclRule :=
  ⟨"TCP", some .permit,
    some ⟨some ⟨none, false, some ⟨⟨none, some range⟩, 0, 0⟩, none, false⟩⟩⟩

def reflectTCP (range : PortRange) : AclRule :=
  { permitTCP range with actions := some .reflect }

/-- A rule without a transport protocol crashes the dump.  A rule that permits
without reflection is left out, so the ACL is taken for one without rules.  A
rule for port zero is taken for one for all ports. -/
theorem dump_misread : dumpVppACLConfig [onTap [denyIP]] = .error .panic ∧
      DumpedAs (onTap [permitTCP ⟨80, 80⟩]) .ingress
        ⟨"ingress-1F", some [], {"tap1"},
          some (onTap [permitTCP ⟨80, 80⟩])⟩ ∧
      dumpRules [reflectTCP ⟨0, 0⟩] =
        .ok [⟨"TCP", .permit, .any, .any, .tcp, 0, 0⟩] ∧
      (reflectTCP ⟨0, 0⟩).matchesPacket webRequest 0 = false := by
  exact ⟨rfl, rfl, rfl, rfl⟩

end ContivVPP.AclRenderer
