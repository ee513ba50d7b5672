import ContivVPP.KeyedAppend
import ContivVPP.SessionRuleCache

/-!
# Session tables do not depend on the order of loops

Of rules that differ in the tag only, a table keeps the one that is inserted
first, and the order of insertion is that of loops over maps.  If the pods have
different addresses, then rules of different namespaces differ in an address.
So rules that differ in the tag only come from the same list of Contiv rules,
which is traversed in its own order, and the tables are the same for all orders
of the loops.  A transaction that leaves the configuration as it is has no
changes then.
-/

namespace ContivVPP.SessionCache

open Net Renderer GoMap KeyedAppend

/-! ## What a list keeps -/

def SessionRule.untagged (rule : SessionRule) : SessionRule :=
  { rule with tag := zeroBytes 64 }

theorem SessionRule.sameUpToTag_iff {a b : SessionRule} :
    a.SameUpToTag b ↔ a.untagged = b.untagged := by
  change compareFields a b = .eq ↔ _
  rw [compareFields_eq_iff]
  constructor
  · intro h
    rw [← h]
    rfl
  · intro h
    cases a
    cases b
    simp only [untagged, SessionRule.mk.injEq, and_true] at h ⊢
    exact h

variable {r : SessionRule}

namespace SessionRuleList

theorem Has.mem_insertOne {srl : SessionRuleList} {rules : List SessionRule}
    (h : srl.Has rules) (rule : SessionRule) :
    ∃ rules', (srl.insertOne rule).2.Has rules' ∧ ∀ r, r ∈ rules' ↔ r ∈ rules ∨
        (r = rule ∧ ∀ y ∈ rules, y.untagged ≠ rule.untagged) := by
  rcases SlotArray.insert_spec h.holds h.sorted rule with
    ⟨⟨y, hy, heq⟩, hinsert⟩ |
      ⟨hnone, smaller, bigger, hsplit, hinsert, hholds, hsorted⟩
  · refine ⟨rules, ?_, fun r => ?_⟩
    · rw [SessionRuleList.insertOne, hinsert]
      exact h
    · rw [or_iff_left]
      intro hnew
      exact hnew.2 y hy (SessionRule.sameUpToTag_iff.mp heq).symm
  · refine ⟨smaller ++ rule :: bigger, ?_, fun r => ?_⟩
    · rw [SessionRuleList.insertOne, hinsert]
      exact ⟨hholds, hsorted⟩
    · have hnew : ∀ y ∈ rules, y.untagged ≠ rule.untagged := by
        intro y hy heq
        exact hnone y hy (SessionRule.sameUpToTag_iff.mpr heq.symm)
      rw [and_iff_left hnew, hsplit]
      simp only [List.mem_append, List.mem_cons]
      tauto

theorem exists_has_first (new : List SessionRule) :
    ∃ rules, (SessionRuleList.insert SlotArray.empty new).2.Has rules ∧
      ∀ r, r ∈ rules ↔ First SessionRule.untagged new r := by
  induction new using List.reverseRecOn with
  | nil =>
      refine ⟨[], has_empty, fun r => ?_⟩
      exact iff_of_false List.not_mem_nil fun h => by simpa using h.mem
  | append_singleton new rule ih =>
      obtain ⟨mid, hmid, hmem⟩ := ih
      obtain ⟨rules, hrules, hmem'⟩ := hmid.mem_insertOne rule
      refine ⟨rules, ?_, fun r => ?_⟩
      · have hfold : (SessionRuleList.insert SlotArray.empty
            (new ++ [rule])).2 = ((SessionRuleList.insert SlotArray.empty
              new).2.insertOne rule).2 := by
          simp [SessionRuleList.insert]
        rw [hfold]
        exact hrules
      · have hkeys : (∀ y ∈ mid, y.untagged ≠ rule.untagged) ↔
            ∀ y ∈ new, y.untagged ≠ rule.untagged := by
          constructor
          · intro h y hy heq
            obtain ⟨z, hz, hkey⟩ := exists_first SessionRule.untagged hy
            exact h z ((hmem z).mpr hz) (hkey.trans heq)
          · intro h y hy
            exact h y ((hmem y).mp hy).mem
        have hlast : First SessionRule.untagged [rule] r ↔ r = rule := by
          rw [first_iff_mem (by simp), List.mem_singleton]
        rw [hmem', hmem, hkeys, first_append_iff, hlast]
        refine or_congr_right (and_congr_right fun heq => ?_)
        rw [heq]

theorem mem_items_insert {new : List SessionRule} :
    r ∈ (SessionRuleList.insert SlotArray.empty new).2.items ↔
      First SessionRule.untagged new r := by
  obtain ⟨rules, hrules, hmem⟩ := exists_has_first new
  rw [hrules.holds.items_eq, hmem]

theorem ValidFor.ext {table : TableID} {srl srl2 : SessionRuleList}
    (h : srl.ValidFor table) (h2 : srl2.ValidFor table)
    (hmem : ∀ r, r ∈ srl.items ↔ r ∈ srl2.items) : srl = srl2 := by
  have hperm : srl.items.Perm srl2.items :=
    (List.perm_ext_iff_of_nodup h.has.nodup h2.has.nodup).mpr hmem
  have hitems : srl.items = srl2.items := by
    refine hperm.eq_of_pairwise ?_ h.has.sorted h2.has.sorted
    intro a b _ _ hab hba
    rw [Std.OrientedCmp.gt_of_lt hab] at hba
    cases hba
  have hslots := h.slots_eq
  have hnum := h.has.holds.1
  rw [hitems, ← h2.slots_eq] at hslots
  rw [hitems, ← h2.has.holds.1] at hnum
  cases srl
  cases srl2
  exact congrArg₂ SlotArray.mk hnum hslots

theorem insert_congr {table : TableID} {new new' : List SessionRule}
    (hnew : ∀ r ∈ new, r.table = table)
    (hnew' : ∀ r ∈ new', r.table = table)
    (h : ∀ r, First SessionRule.untagged new r ↔
      First SessionRule.untagged new' r) :
    (SessionRuleList.insert SlotArray.empty new).2 =
      (SessionRuleList.insert SlotArray.empty new').2 := by
  refine (ValidFor.empty.insert hnew).1.ext (ValidFor.empty.insert hnew').1
    fun r => ?_
  rw [mem_items_insert, mem_items_insert, h]

theorem insert_append (srl : SessionRuleList) (a b : List SessionRule) :
    (srl.insert (a ++ b)).2 = (SessionRuleList.insert (srl.insert a).2 b).2 := by
  induction b using List.reverseRecOn with
  | nil => simp [SessionRuleList.insert]
  | append_singleton b rule ih =>
      rw [← List.append_assoc]
      simp only [SessionRuleList.insert, List.foldl_append, List.foldl_cons,
        List.foldl_nil] at ih ⊢
      rw [ih]

end SessionRuleList

/-! ## Addresses -/

def addressBytes (isIP4 : Bool) (ip : IP) : Bytes 16 :=
  copyBytes (zeroBytes 16) ((if isIP4 then to4 ip else to16 ip).getD [])

theorem norm_to16 {ip x : IP} (h : to16 ip = some x) : norm x = norm ip := by
  unfold to16 at h
  split_ifs at h with h4 h16
  · obtain rfl := Option.some.inj h
    have hto4 : to4 (v4InV6Prefix ++ ip) = some ip := by
      simp [to4, h4, v4InV6Prefix, ipv4Len, ipv6Len]
    rw [Net.norm, hto4, norm_of_length_four h4, Option.getD_some]
  · rw [Option.some.inj h]

theorem addressBytes_toList {isIP4 : Bool} {ip x : IP}
    (hx : (if isIP4 then to4 ip else to16 ip) = some x)
    (hlen : x.length ≤ 16) :
    (addressBytes isIP4 ip).toList = x ++ List.replicate (16 - x.length) 0 := by
  rw [addressBytes, hx, Option.getD_some]
  change (x ++ (List.replicate 16 0).drop x.length).take 16 = _
  rw [List.drop_replicate, List.take_of_length_le]
  rw [List.length_append, List.length_replicate]
  omega

theorem norm_eq_of_addressBytes {isIP4 : Bool} {ip ip' : IP}
    (hip : ValidIP ip) (hip' : ValidIP ip')
    (h4 : isIP4 = true → (to4 ip).isSome ∧ (to4 ip').isSome)
    (h : addressBytes isIP4 ip = addressBytes isIP4 ip') :
    norm ip = norm ip' := by
  have hto16 : ∀ {ip}, ValidIP ip → ∃ x, to16 ip = some x ∧ x.length = 16 := by
    intro ip hip
    unfold to16
    rcases hip with hlen | hlen
    · exact ⟨_, if_pos hlen, by simp [hlen, v4InV6Prefix, ipv4Len]⟩
    · refine ⟨ip, ?_, hlen⟩
      rw [if_neg (by simp [hlen, ipv4Len, ipv6Len]), if_pos hlen]
  have hbytes := congrArg List.Vector.toList h
  cases isIP4 with
  | true =>
      obtain ⟨x, hx⟩ := Option.isSome_iff_exists.mp (h4 rfl).1
      obtain ⟨x', hx'⟩ := Option.isSome_iff_exists.mp (h4 rfl).2
      have hlen := to4_length hx
      have hlen' := to4_length hx'
      rw [@addressBytes_toList true ip x hx (by omega),
        @addressBytes_toList true ip' x' hx' (by omega)] at hbytes
      rw [Net.norm, Net.norm, hx, hx', Option.getD_some, Option.getD_some,
        (List.append_inj hbytes (hlen.trans hlen'.symm)).1]
  | false =>
      obtain ⟨x, hx, hlen⟩ := hto16 hip
      obtain ⟨x', hx', hlen'⟩ := hto16 hip'
      rw [@addressBytes_toList false ip x hx (by omega),
        @addressBytes_toList false ip' x' hx' (by omega)] at hbytes
      rw [← norm_to16 hx, ← norm_to16 hx',
        (List.append_inj hbytes (hlen.trans hlen'.symm)).1]

/-! ## The global table -/

structure DistinctPodIPs (config : Config) : Prop where
  valid : ∀ ns nsConfig, config.lookup ns = some nsConfig →
    ValidIP nsConfig.ipAddr.ip
  distinct : ∀ ns nsConfig ns' nsConfig', config.lookup ns = some nsConfig →
    config.lookup ns' = some nsConfig' →
    ipEqual nsConfig.ipAddr.ip nsConfig'.ipAddr.ip = true → ns = ns'

theorem globalRules_address {md5Hash : String → String} {tagPrefix : String}
    {ns : UInt32 × NamespaceConfig}
    (hr : r ∈ globalRules md5Hash tagPrefix ns) :
    ∃ isIP4 : Bool, r.isIP4 = (if isIP4 then 1 else 0) ∧
      r.lclIP = addressBytes isIP4 ns.2.ipAddr.ip ∧
      (isIP4 = true → (to4 ns.2.ipAddr.ip).isSome) := by
  simp only [globalRules, convertEgressRules, List.mem_flatMap] at hr
  obtain ⟨rule, _, hr⟩ := hr
  refine ⟨(to4 ns.2.ipAddr.ip).isSome &&
    (rule.srcNetwork.ip.isEmpty || (to4 rule.srcNetwork.ip).isSome),
    ?_, ?_, fun h => (Bool.and_eq_true_iff.mp h).1⟩
  all_goals
    unfold convertEgressRule at hr
    split_ifs at hr
    · cases hr
    · rcases List.mem_pair.mp hr with rfl | rfl <;> rfl
    · rw [List.mem_singleton.mp hr]
      rfl

theorem DistinctPodIPs.globalRules_ne {config : Config}
    (h : DistinctPodIPs config) {md5Hash : String → String}
    {tagPrefix : String} {ns ns' : UInt32 × NamespaceConfig}
    (hns : config.lookup ns.1 = some ns.2)
    (hns' : config.lookup ns'.1 = some ns'.2) (hne : ns.1 ≠ ns'.1) :
    ∀ r ∈ globalRules md5Hash tagPrefix ns,
      ∀ r' ∈ globalRules md5Hash tagPrefix ns', r.untagged ≠ r'.untagged := by
  intro r hr r' hr' heq
  obtain ⟨isIP4, hflag, hip, hto4⟩ := globalRules_address hr
  obtain ⟨isIP4', hflag', hip', hto4'⟩ := globalRules_address hr'
  have hflags := congrArg SessionRule.isIP4 heq
  have hips := congrArg SessionRule.lclIP heq
  change r.isIP4 = r'.isIP4 at hflags
  change r.lclIP = r'.lclIP at hips
  have hsame : isIP4 = isIP4' := by
    rw [hflag, hflag'] at hflags
    cases isIP4 <;> cases isIP4' <;> simp_all
  subst hsame
  have hvalid := h.valid _ _ hns
  have hvalid' := h.valid _ _ hns'
  rw [hip, hip'] at hips
  have hnorm := norm_eq_of_addressBytes hvalid hvalid'
    (fun h4 => ⟨hto4 h4, hto4' h4⟩) hips
  exact hne (h.distinct _ _ _ _ hns hns'
    ((ipEqual_iff_norm hvalid hvalid').mpr hnorm))

theorem foldl_insertGlobal {md5Hash : String → String} {tagPrefix : String}
    (namespaces : List (UInt32 × NamespaceConfig)) :
    namespaces.foldl (insertGlobal md5Hash tagPrefix) SlotArray.empty =
      (SessionRuleList.insert SlotArray.empty
        (namespaces.flatMap (globalRules md5Hash tagPrefix))).2 := by
  induction namespaces using List.reverseRecOn with
  | nil => rfl
  | append_singleton namespaces ns ih =>
      rw [List.foldl_append, ih, List.flatMap_append,
        SessionRuleList.insert_append]
      simp [insertGlobal]

theorem mem_range_congr {config config' : Config}
    (hsame : ∀ ns, config.lookup ns = config'.lookup ns)
    (o o' : RangeOrder (UInt32 × NamespaceConfig))
    (ns : UInt32 × NamespaceConfig) :
    ns ∈ range o config ↔ ns ∈ range o' config' := by
  rw [mem_range, mem_range, hsame]

theorem DistinctPodIPs.global_congr {config config' : Config}
    (h : DistinctPodIPs config) (h' : DistinctPodIPs config')
    (hsame : ∀ ns, config.lookup ns = config'.lookup ns)
    {md5Hash : String → String} {tagPrefix : String}
    (o o' : RangeOrder (UInt32 × NamespaceConfig)) :
    (range o config).foldl (insertGlobal md5Hash tagPrefix) SlotArray.empty =
      (range o' config').foldl (insertGlobal md5Hash tagPrefix)
        SlotArray.empty := by
  have hkeys : ∀ {config : Config}, DistinctPodIPs config →
      ∀ o, (range o config).Pairwise fun a b =>
        ∀ r ∈ globalRules md5Hash tagPrefix a,
          ∀ r' ∈ globalRules md5Hash tagPrefix b, r.untagged ≠ r'.untagged := by
    intro config h o
    have hnodup := range_keys_nodup o config
    rw [List.Nodup, List.pairwise_map] at hnodup
    refine hnodup.imp_of_mem fun ha hb hne => ?_
    exact h.globalRules_ne (mem_range.mp ha) (mem_range.mp hb) hne
  have htable : ∀ namespaces : List (UInt32 × NamespaceConfig),
      ∀ r ∈ namespaces.flatMap (globalRules md5Hash tagPrefix),
        r.table = .global := by
    intro namespaces r hr
    obtain ⟨ns, _, hr⟩ := List.mem_flatMap.mp hr
    exact globalRules_table r hr
  rw [foldl_insertGlobal, foldl_insertGlobal]
  refine SessionRuleList.insert_congr (htable _) (htable _) fun r => ?_
  rw [first_flatMap_iff (hkeys h o), first_flatMap_iff (hkeys h' o')]
  simp only [mem_range_congr hsame o o']

/-! ## Combined rules -/

section Combined

variable {orders orders' : CombineOrders} {nsIndex : UInt32}
  {nsConfig : NamespaceConfig} {rmt rmt' : UInt32 × NamespaceConfig}
  {rule : ContivRule}

/-- The ports that both sides allow for a protocol, if they have to be listed
because the egress rules do not allow all that the ingress rules allow. -/
def listedPorts (nsIndex : UInt32) (nsConfig : NamespaceConfig)
    (rmt : UInt32 × NamespaceConfig) (protocol : ProtocolType) :
    Option Ports :=
  if rmt.1 = nsIndex then none
  else if !hasDeny rmt.2.egress then none
  else
    let eg := portsOf
      (getAllowedEgressPorts nsConfig.ipAddr rmt.2.egress) protocol
    let ing := portsOf (if hasDeny nsConfig.ingress then
        getAllowedIngressPorts rmt.2.ipAddr nsConfig.ingress
      else ([0], [0])) protocol
    if ing.isSubsetOf eg then none else some (ing.intersection eg)

def listedRules (order : RangeOrder UInt16) (nsIndex : UInt32)
    (rmt : UInt32 × NamespaceConfig) (protocol : ProtocolType)
    (ports : Ports) : List ContivRule :=
  (order.order ports).map (fun port =>
    combinedRule nsIndex rmt.1 rmt.2.ipAddr protocol .permit
      (toString port.toNat) port) ++
    [combinedRule nsIndex rmt.1 rmt.2.ipAddr protocol .deny "NONE" 0]

def addedRules (orders : CombineOrders) (nsIndex : UInt32)
    (nsConfig : NamespaceConfig) (rmt : UInt32 × NamespaceConfig)
    (protocol : ProtocolType) : List ContivRule :=
  ((listedPorts nsIndex nsConfig rmt protocol).map
    (listedRules (orders.ports rmt.1 protocol) nsIndex rmt protocol)).getD []

def drops (nsIndex : UInt32) (nsConfig : NamespaceConfig)
    (rmt : UInt32 × NamespaceConfig) (rule : ContivRule) : Bool :=
  (listedPorts nsIndex nsConfig rmt rule.protocol).isSome &&
    isReplaced rmt.2.ipAddr rule.protocol rule

theorem mem_addedRules {protocol : ProtocolType} :
    rule ∈ addedRules orders nsIndex nsConfig rmt protocol ↔
      ∃ ports, listedPorts nsIndex nsConfig rmt protocol = some ports ∧
        ((∃ port ∈ ports, rule = combinedRule nsIndex rmt.1 rmt.2.ipAddr
          protocol .permit (toString port.toNat) port) ∨
        rule = combinedRule nsIndex rmt.1 rmt.2.ipAddr protocol .deny "NONE"
          0) := by
  unfold addedRules
  cases listedPorts nsIndex nsConfig rmt protocol with
  | none => simp
  | some ports =>
      simp only [Option.map_some, Option.getD_some, listedRules,
        List.mem_append, List.mem_map, RangeOrder.mem_order,
        List.mem_singleton, Option.some.injEq, exists_eq_left', eq_comm]

theorem fields_of_mem_addedRules {protocol : ProtocolType}
    (h : rule ∈ addedRules orders nsIndex nsConfig rmt protocol) :
    rule.protocol = protocol ∧ rule.destNetwork = rmt.2.ipAddr := by
  obtain ⟨ports, _, h⟩ := mem_addedRules.mp h
  rcases h with ⟨port, _, rfl⟩ | rfl
  · exact ⟨rfl, rfl⟩
  · exact ⟨rfl, rfl⟩

theorem restrict_eq (protocol : ProtocolType) {inPorts egPorts : Ports}
    {rules : List ContivRule}
    (h : listedPorts nsIndex nsConfig rmt protocol =
      if inPorts.isSubsetOf egPorts then none
      else some (inPorts.intersection egPorts)) :
    restrict (orders.ports rmt.1 protocol) nsIndex rmt.1 rmt.2.ipAddr protocol
        inPorts egPorts rules =
      rules.filter (fun rule => !(rule.protocol == protocol &&
          drops nsIndex nsConfig rmt rule)) ++
        addedRules orders nsIndex nsConfig rmt protocol := by
  unfold restrict addedRules
  split_ifs with hsub
  · rw [if_pos hsub] at h
    have hkeep : ∀ rule ∈ rules, (!(rule.protocol == protocol &&
        drops nsIndex nsConfig rmt rule)) = true := by
      intro rule _
      by_cases hp : rule.protocol = protocol
      · simp [drops, hp, h]
      · simp [hp]
    rw [h, List.filter_eq_self.mpr hkeep]
    simp
  · rw [if_neg hsub] at h
    have hsame : (fun rule => !isReplaced rmt.2.ipAddr protocol rule) =
        fun rule => !(rule.protocol == protocol &&
          drops nsIndex nsConfig rmt rule) := by
      funext rule
      by_cases hp : rule.protocol = protocol
      · simp [drops, hp, h]
      · simp [isReplaced, beq_eq_false_iff_ne.mpr hp]
    rw [h, hsame, List.append_assoc]
    rfl

theorem combineWith_eq (rules : List ContivRule) :
    combineWith orders nsIndex nsConfig rules rmt =
      rules.filter (!drops nsIndex nsConfig rmt ·) ++
        (addedRules orders nsIndex nsConfig rmt .tcp ++
          addedRules orders nsIndex nsConfig rmt .udp) := by
  have hskip : (∀ protocol, listedPorts nsIndex nsConfig rmt protocol =
      none) → rules = rules.filter (!drops nsIndex nsConfig rmt ·) ++
        (addedRules orders nsIndex nsConfig rmt .tcp ++
          addedRules orders nsIndex nsConfig rmt .udp) := by
    intro hnone
    simp [addedRules, drops, hnone]
  unfold combineWith
  by_cases hself : rmt.1 = nsIndex
  · rw [if_pos hself]
    exact hskip fun protocol => if_pos hself
  · rw [if_neg hself]
    by_cases hdeny : (!hasDeny rmt.2.egress) = true
    · rw [if_pos hdeny]
      refine hskip fun protocol => ?_
      rw [listedPorts, if_neg hself, if_pos hdeny]
    · have hfilter : (addedRules orders nsIndex nsConfig rmt .tcp).filter
          (fun rule => !(rule.protocol == .udp &&
            drops nsIndex nsConfig rmt rule)) =
          addedRules orders nsIndex nsConfig rmt .tcp := by
        refine List.filter_eq_self.mpr fun rule hrule => ?_
        rw [(fields_of_mem_addedRules hrule).1]
        rfl
      have hboth : (fun rule => (!(rule.protocol == .udp &&
          drops nsIndex nsConfig rmt rule)) && !(rule.protocol == .tcp &&
            drops nsIndex nsConfig rmt rule)) =
          fun rule => !drops nsIndex nsConfig rmt rule := by
        funext rule
        cases rule.protocol <;> simp
      rw [if_neg hdeny]
      simp only
      rw [restrict_eq .udp, restrict_eq .tcp, List.filter_append, hfilter,
        List.filter_filter, hboth, List.append_assoc]
      · rw [listedPorts, if_neg hself, if_neg hdeny]
        rfl
      · rw [listedPorts, if_neg hself, if_neg hdeny]
        rfl

def addedFor (orders : CombineOrders) (nsIndex : UInt32)
    (nsConfig : NamespaceConfig) (rmt : UInt32 × NamespaceConfig) :
    List ContivRule :=
  addedRules orders nsIndex nsConfig rmt .tcp ++
    addedRules orders nsIndex nsConfig rmt .udp

theorem mem_addedFor : rule ∈ addedFor orders nsIndex nsConfig rmt ↔
      ∃ protocol, rule ∈ addedRules orders nsIndex nsConfig rmt protocol := by
  rw [addedFor, List.mem_append]
  constructor
  · intro h
    rcases h with h | h
    · exact ⟨.tcp, h⟩
    · exact ⟨.udp, h⟩
  · rintro ⟨protocol, h⟩
    cases protocol with
    | tcp => exact Or.inl h
    | udp => exact Or.inr h

theorem mem_addedFor_congr : rule ∈ addedFor orders nsIndex nsConfig rmt ↔
      rule ∈ addedFor orders' nsIndex nsConfig rmt := by
  simp only [mem_addedFor, mem_addedRules]

/-- Nothing that was added for another address is dropped. -/
theorem foldl_combineWith_eq {rmts : List (UInt32 × NamespaceConfig)}
    (hdistinct : rmts.Pairwise fun a b =>
      ipEqual a.2.ipAddr.ip b.2.ipAddr.ip = false)
    (rules : List ContivRule) :
    rmts.foldl (combineWith orders nsIndex nsConfig) rules =
      rules.filter (fun rule =>
          rmts.all fun rmt => !drops nsIndex nsConfig rmt rule) ++
        rmts.flatMap (addedFor orders nsIndex nsConfig) := by
  induction rmts generalizing rules with
  | nil => simp
  | cons rmt rmts ih =>
      rw [List.pairwise_cons] at hdistinct
      have hadded : (addedFor orders nsIndex nsConfig rmt).filter
          (fun rule => rmts.all fun rmt => !drops nsIndex nsConfig rmt rule) =
          addedFor orders nsIndex nsConfig rmt := by
        refine List.filter_eq_self.mpr fun rule hrule => ?_
        rw [List.all_eq_true]
        intro rmt' hrmt'
        obtain ⟨protocol, hrule⟩ := mem_addedFor.mp hrule
        simp [drops, isReplaced, (fields_of_mem_addedRules hrule).2,
          hdistinct.1 rmt' hrmt']
      rw [List.foldl_cons, ih hdistinct.2, combineWith_eq,
        List.filter_append, List.filter_filter]
      change _ ++ (addedFor orders nsIndex nsConfig rmt).filter _ ++ _ = _
      rw [hadded, List.flatMap_cons, List.append_assoc]
      congr 2
      funext rule
      rw [List.all_cons, Bool.and_comm]

end Combined

/-! ## Local tables -/

section Local

variable {md5Hash : String → String} {tagPrefix : String}
  {orders orders' : CombineOrders} {nsIndex : UInt32}
  {nsConfig : NamespaceConfig} {config config' : Config}
  {rmt rmt' : UInt32 × NamespaceConfig} {rule rule' : ContivRule}

theorem eq_of_mem_convertIngressRule (hlen : rule.destNetwork.ip.length ≠ 0)
    (hr : r ∈ convertIngressRule md5Hash nsIndex tagPrefix rule) :
    r = (ingressRule nsIndex rule).withTag md5Hash tagPrefix
      (toString nsIndex.toNat ++ "-ingress-" ++ rule.id) := by
  unfold convertIngressRule at hr
  rw [if_neg fun h => hlen h.1] at hr
  simp only [if_neg hlen] at hr
  exact List.mem_singleton.mp hr

theorem ingressRule_address (hvalid : ValidIP rule.destNetwork.ip) :
    (ingressRule nsIndex rule).isIP4 =
        (if (to4 rule.destNetwork.ip).isSome then 1 else 0) ∧
      (ingressRule nsIndex rule).rmtIP =
        addressBytes (to4 rule.destNetwork.ip).isSome rule.destNetwork.ip := by
  have hlen : rule.destNetwork.ip.length > 0 := by
    rcases hvalid with hlen | hlen
    · rw [hlen]
      decide
    · rw [hlen]
      decide
  have hempty : rule.destNetwork.ip.isEmpty = false := by
    rw [List.isEmpty_eq_false_iff]
    exact List.length_pos_iff.mp hlen
  simp [ingressRule, hempty, networkBytes, hlen, addressBytes]

theorem DistinctPodIPs.added_inj (h : DistinctPodIPs config)
    (hrmt : config.lookup rmt.1 = some rmt.2)
    (hrmt' : config.lookup rmt'.1 = some rmt'.2)
    (hrule : rule ∈ addedFor orders nsIndex nsConfig rmt)
    (hrule' : rule' ∈ addedFor orders nsIndex nsConfig rmt')
    (heq : ingressRule nsIndex rule = ingressRule nsIndex rule') :
    rule = rule' := by
  obtain ⟨protocol, hrule⟩ := mem_addedFor.mp hrule
  obtain ⟨protocol', hrule'⟩ := mem_addedFor.mp hrule'
  obtain ⟨hprotocol, hdest⟩ := fields_of_mem_addedRules hrule
  obtain ⟨hprotocol', hdest'⟩ := fields_of_mem_addedRules hrule'
  have hvalid := h.valid _ _ hrmt
  have hvalid' := h.valid _ _ hrmt'
  rw [← hdest] at hvalid
  rw [← hdest'] at hvalid'
  obtain ⟨hflag, hip⟩ := @ingressRule_address nsIndex rule hvalid
  obtain ⟨hflag', hip'⟩ := @ingressRule_address nsIndex rule' hvalid'
  have hsame : (to4 rule.destNetwork.ip).isSome =
      (to4 rule'.destNetwork.ip).isSome := by
    rw [heq, hflag'] at hflag
    cases hto4 : (to4 rule.destNetwork.ip).isSome <;>
      cases hto4' : (to4 rule'.destNetwork.ip).isSome <;> simp_all
  have hns : rmt.1 = rmt'.1 := by
    refine h.distinct _ _ _ _ hrmt hrmt' ?_
    rw [← hdest, ← hdest', ipEqual_iff_norm hvalid hvalid']
    rw [heq, hip', hsame] at hip
    exact (norm_eq_of_addressBytes hvalid' hvalid
      (fun h4 => ⟨h4, hsame.trans h4⟩) hip).symm
  have hpair : rmt = rmt' := by
    rw [hns, hrmt', Option.some.injEq] at hrmt
    exact Prod.ext hns hrmt.symm
  have hproto : protocol = protocol' := by
    have hproto := congrArg SessionRule.transportProto heq
    change transportProto rule.protocol = transportProto rule'.protocol at hproto
    rw [hprotocol, hprotocol'] at hproto
    cases protocol <;> cases protocol' <;> first | rfl | cases hproto
  subst hpair
  subst hproto
  have haction := congrArg SessionRule.actionIndex heq
  have hport := congrArg SessionRule.rmtPort heq
  change actionIndex rule.action = actionIndex rule'.action at haction
  change rule.destPort = rule'.destPort at hport
  obtain ⟨ports, _, hcases⟩ := mem_addedRules.mp hrule
  obtain ⟨ports', _, hcases'⟩ := mem_addedRules.mp hrule'
  rcases hcases with ⟨port, _, rfl⟩ | rfl
  · rcases hcases' with ⟨port', _, rfl⟩ | rfl
    · have hport : port = port' := hport
      rw [hport]
    · cases haction
  · rcases hcases' with ⟨port', _, rfl⟩ | rfl
    · cases haction
    · rfl

theorem DistinctPodIPs.range_distinct (h : DistinctPodIPs config)
    (o : RangeOrder (UInt32 × NamespaceConfig)) :
    (range o config).Pairwise fun a b =>
      ipEqual a.2.ipAddr.ip b.2.ipAddr.ip = false := by
  have hnodup := range_keys_nodup o config
  rw [List.Nodup, List.pairwise_map] at hnodup
  refine hnodup.imp_of_mem fun ha hb hne => ?_
  rw [Bool.eq_false_iff]
  intro heq
  exact hne (h.distinct _ _ _ _ (mem_range.mp ha) (mem_range.mp hb) heq)

def keptRules (o : RangeOrder (UInt32 × NamespaceConfig)) (config : Config)
    (nsIndex : UInt32) (nsConfig : NamespaceConfig) : List ContivRule :=
  nsConfig.ingress.filter fun rule =>
    (range o config).all fun rmt => !drops nsIndex nsConfig rmt rule

theorem keptRules_congr (hsame : ∀ ns, config.lookup ns = config'.lookup ns)
    (o o' : RangeOrder (UInt32 × NamespaceConfig)) :
    keptRules o config nsIndex nsConfig =
      keptRules o' config' nsIndex nsConfig := by
  unfold keptRules
  congr 1
  funext rule
  rw [Bool.eq_iff_iff, List.all_eq_true, List.all_eq_true]
  simp only [mem_range_congr hsame o o']

theorem DistinctPodIPs.localRules_eq (h : DistinctPodIPs config)
    (hns : config.lookup nsIndex = some nsConfig) :
    localRules md5Hash tagPrefix orders config nsIndex =
      convertIngressRules md5Hash nsIndex
        (keptRules orders.config config nsIndex nsConfig) tagPrefix ++
      convertIngressRules md5Hash nsIndex ((range orders.config config).flatMap
          (addedFor orders nsIndex nsConfig)) tagPrefix := by
  have hcombined : getCombinedIngressRules orders config nsIndex =
      some ((range orders.config config).foldl
        (combineWith orders nsIndex nsConfig) nsConfig.ingress) := by
    rw [getCombinedIngressRules, hns]
    rfl
  rw [localRules, hcombined, Option.getD_some,
    foldl_combineWith_eq (h.range_distinct orders.config),
    convertIngressRules, List.flatMap_append]
  rfl

def addedSessionRules (md5Hash : String → String) (tagPrefix : String)
    (orders : CombineOrders) (config : Config) (nsIndex : UInt32)
    (nsConfig : NamespaceConfig) : List SessionRule :=
  convertIngressRules md5Hash nsIndex ((range orders.config config).flatMap
      (addedFor orders nsIndex nsConfig)) tagPrefix

theorem mem_addedSessionRules :
    r ∈ addedSessionRules md5Hash tagPrefix orders config nsIndex nsConfig ↔
      ∃ rmt : UInt32 × NamespaceConfig, config.lookup rmt.1 = some rmt.2 ∧
        ∃ rule ∈ addedFor orders nsIndex nsConfig rmt,
          r ∈ convertIngressRule md5Hash nsIndex tagPrefix rule := by
  simp only [addedSessionRules, convertIngressRules, List.mem_flatMap]
  constructor
  · rintro ⟨rule, ⟨rmt, hrmt, hrule⟩, hr⟩
    exact ⟨rmt, mem_range.mp hrmt, rule, hrule, hr⟩
  · rintro ⟨rmt, hrmt, rule, hrule, hr⟩
    exact ⟨rule, ⟨rmt, mem_range.mpr hrmt, hrule⟩, hr⟩

theorem DistinctPodIPs.addedSessionRules_inj (h : DistinctPodIPs config) :
    ∀ r ∈ addedSessionRules md5Hash tagPrefix orders config nsIndex nsConfig,
      ∀ r' ∈ addedSessionRules md5Hash tagPrefix orders config nsIndex
        nsConfig, r.untagged = r'.untagged → r = r' := by
  intro r hr r' hr' heq
  obtain ⟨rmt, hrmt, rule, hrule, hr⟩ := mem_addedSessionRules.mp hr
  obtain ⟨rmt', hrmt', rule', hrule', hr'⟩ := mem_addedSessionRules.mp hr'
  have hlen : ∀ {rmt : UInt32 × NamespaceConfig} {rule},
      config.lookup rmt.1 = some rmt.2 →
      rule ∈ addedFor orders nsIndex nsConfig rmt →
      rule.destNetwork.ip.length ≠ 0 := by
    intro rmt rule hrmt hrule
    obtain ⟨protocol, hrule⟩ := mem_addedFor.mp hrule
    rw [(fields_of_mem_addedRules hrule).2]
    rcases h.valid _ _ hrmt with hlen | hlen
    · rw [hlen]
      decide
    · rw [hlen]
      decide
  have hr := eq_of_mem_convertIngressRule (hlen hrmt hrule) hr
  have hr' := eq_of_mem_convertIngressRule (hlen hrmt' hrule') hr'
  rw [hr, hr'] at heq
  have hrules := h.added_inj hrmt hrmt' hrule hrule' heq
  rw [hr, hr', hrules]

theorem DistinctPodIPs.congr (h : DistinctPodIPs config)
    (hsame : ∀ ns, config.lookup ns = config'.lookup ns) :
    DistinctPodIPs config' := by
  constructor
  · intro ns nsConfig hns
    exact h.valid ns nsConfig ((hsame ns).trans hns)
  · intro ns nsConfig ns' nsConfig' hns hns' heq
    exact h.distinct _ _ _ _ ((hsame ns).trans hns) ((hsame ns').trans hns') heq

theorem DistinctPodIPs.local_congr (h : DistinctPodIPs config)
    (hsame : ∀ ns, config.lookup ns = config'.lookup ns)
    (hns : config.lookup nsIndex = some nsConfig) :
    (SessionRuleList.insert SlotArray.empty
        (localRules md5Hash tagPrefix orders config nsIndex)).2 =
      (SessionRuleList.insert SlotArray.empty
        (localRules md5Hash tagPrefix orders' config' nsIndex)).2 := by
  refine SessionRuleList.insert_congr localRules_table localRules_table
    fun r => ?_
  have h' := h.congr hsame
  rw [h.localRules_eq hns, h'.localRules_eq ((hsame nsIndex).symm.trans hns),
    first_append_iff, first_append_iff,
    keptRules_congr hsame orders.config orders'.config]
  have hadded := @DistinctPodIPs.addedSessionRules_inj md5Hash tagPrefix orders
    nsIndex nsConfig config h
  have hadded' := @DistinctPodIPs.addedSessionRules_inj md5Hash tagPrefix
    orders' nsIndex nsConfig config' h'
  refine or_congr_right (and_congr_left fun _ => ?_)
  rw [← addedSessionRules, ← addedSessionRules, first_iff_mem hadded,
    first_iff_mem hadded', mem_addedSessionRules, mem_addedSessionRules]
  simp only [hsame, @mem_addedFor_congr orders orders']

end Local

/-! ## Tables of a transaction -/

section Tables

variable {md5Hash : String → String} {tagPrefix : String}
  {config config' : Config} {orders orders' : RefreshOrders} {txn : Txn}

def tableFor (md5Hash : String → String) (tagPrefix : String)
    (orders : RefreshOrders) (config : Config) :
    TableID → Option SessionRuleList
  | .global => some ((range orders.global config).foldl
      (insertGlobal md5Hash tagPrefix) SlotArray.empty)
  | .ofNamespace nsIndex => (config.lookup nsIndex).map fun _ =>
      (SessionRuleList.insert SlotArray.empty (localRules md5Hash tagPrefix
        (orders.combine nsIndex) config nsIndex)).2

theorem DistinctPodIPs.tableFor_congr (h : DistinctPodIPs config)
    (hsame : ∀ ns, config.lookup ns = config'.lookup ns) (table : TableID) :
    tableFor md5Hash tagPrefix orders config table =
      tableFor md5Hash tagPrefix orders' config' table := by
  cases table with
  | global =>
      exact congrArg some (h.global_congr (h.congr hsame) hsame _ _)
  | ofNamespace nsIndex =>
      cases hns : config.lookup nsIndex with
      | none => simp [tableFor, ← hsame, hns]
      | some nsConfig =>
          simp only [tableFor, ← hsame nsIndex, hns, Option.map_some]
          exact congrArg some (h.local_congr hsame hns)

/-- The tables are those of the configuration; for other namespaces they are
left as they were. -/
theorem Txn.refreshTables_list (table : TableID) :
    (txn.refreshTables md5Hash tagPrefix orders).tables.list table =
      (tableFor md5Hash tagPrefix orders txn.config table).or
        (txn.tables.list table) := by
  cases table with
  | global => rfl
  | ofNamespace nsIndex =>
      cases hns : txn.config.lookup nsIndex with
      | none =>
          simp only [SessionTables.list, tableFor, hns, Option.map_none,
            Option.none_or]
          exact refreshTables_locals_of_none hns
      | some nsConfig =>
          simp only [SessionTables.list, tableFor, hns, Option.map_some,
            Option.some_or]
          exact lookup_refreshTables hns

theorem DistinctPodIPs.refreshTables_congr (h : DistinctPodIPs txn.config)
    (table : TableID) :
    (txn.refreshTables md5Hash tagPrefix orders).tables.list table =
      (txn.refreshTables md5Hash tagPrefix orders').tables.list table := by
  rw [Txn.refreshTables_list, Txn.refreshTables_list,
    h.tableFor_congr fun _ => rfl]

/-- Tables that are up to date are those of the configuration, and there are no
others than those of its namespaces. -/
structure Txn.Current (md5Hash : String → String) (tagPrefix : String)
    (txn : Txn) : Prop where
  covered : ∀ nsIndex, txn.config.lookup nsIndex = none →
    txn.tables.locals.lookup nsIndex = none
  built : txn.upToDateTables = true → ∃ orders, ∀ table, txn.tables.list table =
      tableFor md5Hash tagPrefix orders txn.config table

theorem Txn.current_newTxn (cache : SessionRuleCache) (resync : Bool) :
    (cache.newTxn resync).Current md5Hash tagPrefix where
  covered _ _ := rfl
  built h := by cases h

section

variable (h : txn.Current md5Hash tagPrefix)
include h

theorem Txn.Current.update (nsIndex : UInt32) (nsConfig : NamespaceConfig) :
    (txn.update nsIndex nsConfig).Current md5Hash tagPrefix where
  covered ns hns := by
    apply h.covered
    change (txn.config.insert nsIndex nsConfig).lookup ns = none at hns
    by_cases heq : ns = nsIndex
    · rw [heq, AList.lookup_insert] at hns
      cases hns
    · rwa [AList.lookup_insert_ne heq] at hns
  built h := by cases h

theorem Txn.Current.refreshTables_list_eq (orders : RefreshOrders)
    (table : TableID) :
    (txn.refreshTables md5Hash tagPrefix orders).tables.list table =
      tableFor md5Hash tagPrefix orders txn.config table := by
  rw [Txn.refreshTables_list]
  cases table with
  | global => rfl
  | ofNamespace nsIndex =>
      cases hns : txn.config.lookup nsIndex with
      | none => simp [tableFor, hns, SessionTables.list, h.covered _ hns]
      | some nsConfig => simp [tableFor, hns]

theorem Txn.Current.exists_orders (orders : RefreshOrders) : ∃ orders', ∀ table,
      (txn.refresh md5Hash tagPrefix orders).tables.list table =
        tableFor md5Hash tagPrefix orders' txn.config table := by
  unfold Txn.refresh
  split_ifs with hcurrent
  · exact h.built hcurrent
  · exact ⟨orders, h.refreshTables_list_eq orders⟩

theorem Txn.Current.refresh :
    (txn.refresh md5Hash tagPrefix orders).Current md5Hash tagPrefix := by
  obtain ⟨orders', horders'⟩ := h.exists_orders orders
  rw [← @Txn.refresh_config md5Hash tagPrefix orders txn] at horders'
  refine ⟨fun nsIndex hns => ?_, fun _ => ⟨orders', horders'⟩⟩
  have hlist := horders' (.ofNamespace nsIndex)
  rw [tableFor, hns] at hlist
  exact hlist

end

theorem TxnCall.apply_current (call : TxnCall)
    (h : txn.Current md5Hash tagPrefix) :
    (call.apply md5Hash tagPrefix txn).Current md5Hash tagPrefix := by
  cases call with
  | update nsIndex nsConfig => exact h.update nsIndex nsConfig
  | changes orders => exact h.refresh

theorem SessionRuleCache.txnAfter_current (cache : SessionRuleCache)
    (resync : Bool) (calls : List TxnCall) :
    (cache.txnAfter md5Hash tagPrefix resync calls).Current md5Hash
      tagPrefix := by
  refine List.foldlRecOn
    (motive := fun txn : Txn => txn.Current md5Hash tagPrefix) calls _
    (Txn.current_newTxn cache resync) ?_
  intro txn h call _
  exact call.apply_current h

theorem cacheAfter_built (history : List CommittedTxn) : ∃ orders, ∀ table,
      (cacheAfter md5Hash tagPrefix history).tables.list table =
        tableFor md5Hash tagPrefix orders
          (cacheAfter md5Hash tagPrefix history).config table := by
  induction history using List.reverseRecOn with
  | nil =>
      refine ⟨insertionOrders, fun table => ?_⟩
      cases table <;> rfl
  | append_singleton history t _ =>
      rw [cacheAfter, List.foldl_append]
      exact (SessionRuleCache.txnAfter_current _ _ _).exists_orders t.orders

end Tables

/-! ## Transactions that change nothing -/

section Nothing

variable {md5Hash : String → String} {tagPrefix : String}
  {cache : SessionRuleCache} {resync : Bool} {calls : List TxnCall}

/-- The updates give namespaces what they have in the cache; with resync, all
of the cached namespaces. -/
structure Repeats (cache : SessionRuleCache) (resync : Bool)
    (calls : List TxnCall) : Prop where
  same : ∀ ns nsConfig, .update ns nsConfig ∈ calls →
    cache.config.lookup ns = some nsConfig
  all : resync = true → ∀ ns nsConfig,
    cache.config.lookup ns = some nsConfig → .update ns nsConfig ∈ calls

theorem TxnCall.apply_config {txn : Txn} {call : TxnCall} {ns : UInt32} :
    (call.apply md5Hash tagPrefix txn).config.lookup ns =
      match call with
      | .update ns' nsConfig =>
          if ns = ns' then some nsConfig else txn.config.lookup ns
      | .changes _ => txn.config.lookup ns := by
  cases call with
  | update ns' nsConfig =>
      change (txn.config.insert ns' nsConfig).lookup ns = _
      by_cases heq : ns = ns'
      · rw [heq, AList.lookup_insert]
        simp
      · rw [AList.lookup_insert_ne heq]
        simp [heq]
  | changes orders =>
      exact congrArg (AList.lookup ns) Txn.refresh_config

theorem lookup_foldl_calls {config : Config} {txn : Txn}
    (hsame : ∀ ns nsConfig, .update ns nsConfig ∈ calls →
      config.lookup ns = some nsConfig) (ns : UInt32) :
    ((∃ nsConfig, .update ns nsConfig ∈ calls) →
      (calls.foldl (TxnCall.apply md5Hash tagPrefix) txn).config.lookup ns =
        config.lookup ns) ∧
    ((∀ nsConfig, .update ns nsConfig ∉ calls) →
      (calls.foldl (TxnCall.apply md5Hash tagPrefix) txn).config.lookup ns =
        txn.config.lookup ns) := by
  induction calls using List.reverseRecOn with
  | nil => simp
  | append_singleton calls call ih =>
      have ih := ih fun ns nsConfig h => hsame ns nsConfig (by simp [h])
      rw [List.foldl_append, List.foldl_cons, List.foldl_nil,
        TxnCall.apply_config]
      cases call with
      | changes orders => simpa using ih
      | update ns' nsConfig =>
          by_cases hns : ns = ns'
          · subst hns
            have hlast := hsame ns nsConfig (by simp)
            simp only [if_true, hlast]
            exact ⟨fun _ => trivial, fun h => absurd (by simp) (h nsConfig)⟩
          · simpa [hns] using ih

theorem Repeats.lookup_txnAfter (h : Repeats cache resync calls) (ns : UInt32) :
    (cache.txnAfter md5Hash tagPrefix resync calls).config.lookup ns =
      cache.config.lookup ns := by
  obtain ⟨hupdated, hkept⟩ := @lookup_foldl_calls md5Hash tagPrefix calls
    cache.config (cache.newTxn resync) h.same ns
  by_cases hns : ∃ nsConfig, TxnCall.update ns nsConfig ∈ calls
  · exact hupdated hns
  · push Not at hns
    refine (hkept hns).trans ?_
    cases resync with
    | false => rfl
    | true =>
        cases hcache : cache.config.lookup ns with
        | none => rfl
        | some nsConfig =>
            exact absurd (h.all rfl ns nsConfig hcache) (hns nsConfig)

theorem diff_eq_nil {st st2 : SessionTables}
    (o o2 : RangeOrder (UInt32 × SessionRuleList)) (hst : st.Valid)
    (hst2 : st2.Valid)
    (hsame : ∀ table r, r ∈ st.rules table ↔ r ∈ st2.rules table) :
    st.diff o o2 st2 = ([], []) := by
  have hnil : ∀ {refs : RuleRefs} {P : SessionRule → Prop},
      SessionTables.Lists refs P → (∀ r, ¬ P r) → refs = [] := by
    intro refs P h hnone
    obtain ⟨rules, rfl, _, hmem⟩ := h
    rw [List.eq_nil_iff_forall_not_mem.mpr fun r hr => hnone r
      ((hmem r).mp hr), List.map_nil]
  obtain ⟨hadded, hremoved⟩ := SessionTables.diff_spec o o2 hst hst2
  exact Prod.ext (hnil hadded fun r hr => hr.2 ((hsame _ r).mp hr.1))
    (hnil hremoved fun r hr => hr.2 ((hsame _ r).mpr hr.1))

theorem distinctRules_of_perm {st : SessionTables} (hst : st.Valid)
    {dump : List SessionRule}
    (hdump : ∀ table, (dump.filter (·.table = table)).Perm
      (st.rules table)) : DistinctRules dump := by
  rw [DistinctRules, List.pairwise_iff_forall_sublist]
  intro a b hab htable hsame
  have hsub := hab.filter (·.table = b.table)
  rw [List.filter_cons_of_pos (by simpa using htable),
    List.filter_cons_of_pos (by simp), List.filter_nil] at hsub
  have hnodup : (dump.filter (·.table = b.table)).Nodup :=
    (hdump b.table).nodup_iff.mpr (hst.nodup b.table)
  have ha := (hdump b.table).mem_iff.mp (hsub.subset List.mem_cons_self)
  have hb := (hdump b.table).mem_iff.mp
    (hsub.subset (List.mem_cons_of_mem a List.mem_cons_self))
  have heq := hst.eq_of_sameUpToTag ha hb hsame
  have hpair := hnodup.sublist hsub
  simp [heq] at hpair

end Nothing

/-- The orders of the loops do not matter for the tables if the pods have
different addresses.  So a transaction with the cached configuration has no
changes, and neither has a resync if VPP has the cached tables. -/
theorem refreshTables_unordered (md5Hash : String → String) (tagPrefix : String) :
    (∀ (txn : Txn) (orders orders' : RefreshOrders),
      DistinctPodIPs txn.config → ∀ table,
        (txn.refreshTables md5Hash tagPrefix orders).tables.list table =
          (txn.refreshTables md5Hash tagPrefix orders').tables.list table) ∧
    ∀ (history : List CommittedTxn) (calls : List TxnCall)
      (orders : ChangesOrders) (cache : SessionRuleCache),
      cache = cacheAfter md5Hash tagPrefix history →
      DistinctPodIPs cache.config →
      (Repeats cache false calls → ∀ dump,
        ((cache.txnAfter md5Hash tagPrefix false calls).changes md5Hash
          tagPrefix orders dump cache).2 = some ([], [])) ∧
      (Repeats cache true calls → ∀ dump,
        (∀ table, (dump.filter (·.table = table)).Perm
          (cache.tables.rules table)) →
        ((cache.txnAfter md5Hash tagPrefix true calls).changes md5Hash
          tagPrefix orders (some dump) cache).2 = some ([], [])) := by
  refine ⟨fun txn orders orders' h table => h.refreshTables_congr table, ?_⟩
  intro history calls orders cache hcache hips
  have hvalid : cache.tables.Valid := hcache ▸ cacheAfter_valid
  obtain ⟨orders₀, hbuilt⟩ := @cacheAfter_built md5Hash tagPrefix history
  rw [← hcache] at hbuilt
  -- The tables of the transaction are the cached ones.
  have hlist : ∀ resync, Repeats cache resync calls → ∀ table,
      ((cache.txnAfter md5Hash tagPrefix resync calls).refresh md5Hash
        tagPrefix orders.refresh).tables.list table =
        cache.tables.list table := by
    intro resync hrepeats table
    obtain ⟨orders₁, htxn⟩ := (cache.txnAfter_current resync
      calls).exists_orders orders.refresh
    rw [htxn, hbuilt]
    exact (hips.tableFor_congr
      (fun ns => (hrepeats.lookup_txnAfter ns).symm) table).symm
  have hrules : ∀ resync, Repeats cache resync calls → ∀ table,
      ((cache.txnAfter md5Hash tagPrefix resync calls).refresh md5Hash
        tagPrefix orders.refresh).tables.rules table =
        cache.tables.rules table := by
    intro resync hrepeats table
    rw [SessionTables.rules, SessionTables.rules, hlist resync hrepeats]
  constructor
  · intro hrepeats dump
    simp only [Txn.changes, Txn.refresh_resync,
      SessionRuleCache.txnAfter_resync, Bool.false_eq_true, if_false]
    rw [diff_eq_nil _ _ (Txn.refresh_valid SessionRuleCache.txnAfter_valid)
      hvalid fun table r => by rw [hrules false hrepeats]]
  · intro hrepeats dump hdump
    simp only [Txn.changes, Txn.refresh_resync,
      SessionRuleCache.txnAfter_resync, if_true, Option.map_some]
    rw [diff_eq_nil _ _ (Txn.refresh_valid SessionRuleCache.txnAfter_valid)
      (dumped_dumpedTables dump).valid]
    intro table r
    rw [hrules true hrepeats, ← (hdump table).mem_iff,
      (dumpedTables_perm (distinctRules_of_perm hvalid hdump) table).mem_iff]

def openIP : IPNet := ⟨[10, 1, 1, 3], [255, 255, 255, 255]⟩

def isolatedAndOpen : CommittedTxn :=
  ⟨false, [.update 1 ⟨isolatedIP, [], [isolatedRule]⟩,
    .update 2 ⟨openIP, [], []⟩], insertionOrders⟩

def cachedPods : SessionRuleCache :=
  cacheAfter id "contiv/vpp-policy-" [isolatedAndOpen]

def reversedOrders : RefreshOrders :=
  ⟨.reversed, .reversed, .reversed, fun _ => ⟨.reversed, fun _ _ => .reversed⟩⟩

theorem lookup_cachedPods {ns : UInt32} {nsConfig : NamespaceConfig} :
    cachedPods.config.lookup ns = some nsConfig ↔
      (ns = 1 ∧ nsConfig = ⟨isolatedIP, [], [isolatedRule]⟩) ∨
        (ns = 2 ∧ nsConfig = ⟨openIP, [], []⟩) := by
  change (((∅ : Config).insert 1 ⟨isolatedIP, [], [isolatedRule]⟩).insert 2
    ⟨openIP, [], []⟩).lookup ns = some nsConfig ↔ _
  constructor
  · intro h
    rcases lookup_insert_eq_some h with hnew | ⟨_, hold⟩
    · exact Or.inr hnew
    · rcases lookup_insert_eq_some hold with hnew | ⟨_, hnone⟩
      · exact Or.inl hnew
      · cases hnone
  · rintro (⟨rfl, rfl⟩ | ⟨rfl, rfl⟩) <;> decide

theorem distinctPodIPs_cachedPods : DistinctPodIPs cachedPods.config := by
  constructor
  · intro ns nsConfig hns
    rcases lookup_cachedPods.mp hns with ⟨_, rfl⟩ | ⟨_, rfl⟩ <;>
      exact Or.inl rfl
  · intro ns nsConfig ns' nsConfig' hns hns' hequal
    rcases lookup_cachedPods.mp hns with ⟨rfl, rfl⟩ | ⟨rfl, rfl⟩ <;>
      rcases lookup_cachedPods.mp hns' with ⟨rfl, rfl⟩ | ⟨rfl, rfl⟩
    · rfl
    · exact absurd hequal (by decide)
    · exact absurd hequal (by decide)
    · rfl

def dumpedPods : List SessionRule :=
  cachedPods.tables.rules (.ofNamespace 2) ++ cachedPods.tables.rules .global

theorem filter_dumpedPods (table : TableID) :
    dumpedPods.filter (·.table = table) = cachedPods.tables.rules table := by
  have hlocal : ∀ r ∈ cachedPods.tables.rules (.ofNamespace 2),
      r.table = .ofNamespace 2 := by decide +kernel
  have hglobal : ∀ r ∈ cachedPods.tables.rules .global,
      r.table = .global := by decide +kernel
  have hother : ∀ table (rules : List SessionRule),
      (∀ r ∈ rules, r.table ≠ table) →
      rules.filter (·.table = table) = [] := by
    intro table rules hrules
    exact List.filter_eq_nil_iff.mpr fun r hr => by simp [hrules r hr]
  have hown : ∀ table (rules : List SessionRule), (∀ r ∈ rules, r.table = table) →
      rules.filter (·.table = table) = rules := by
    intro table rules hrules
    exact List.filter_eq_self.mpr fun r hr => by simp [hrules r hr]
  rw [dumpedPods, List.filter_append]
  cases table with
  | global =>
      rw [hother _ _ fun r hr => by simp [hlocal r hr], hown _ _ hglobal,
        List.nil_append]
  | ofNamespace ns =>
      rw [hother _ (cachedPods.tables.rules .global) fun r hr => by
        simp [hglobal r hr], List.append_nil]
      by_cases htwo : ns = 2
      · rw [htwo, hown _ _ hlocal]
      · rw [hother _ _ fun r hr => by simp [hlocal r hr, Ne.symm htwo]]
        by_cases hone : ns = 1
        · rw [hone]
          decide +kernel
        · have hnone : cachedPods.config.lookup ns = none := by
            rw [Option.eq_none_iff_forall_ne_some]
            intro nsConfig hns
            simp [lookup_cachedPods, hone, htwo] at hns
          obtain ⟨orders, hbuilt⟩ := @cacheAfter_built id
            "contiv/vpp-policy-" [isolatedAndOpen]
          rw [cachedPods, SessionTables.rules, hbuilt, tableFor, ← cachedPods,
            hnone]
          rfl

/-- Updating the pods with what they have changes nothing, in whatever order
and after a resync as well. -/
theorem refreshTables_unordered_cachedPods :
    DistinctPodIPs cachedPods.config ∧ dumpedPods.length = 4 ∧ (∀ table,
        ((cachedPods.newTxn false).refreshTables id "contiv/vpp-policy-"
          insertionOrders).tables.list table =
        ((cachedPods.newTxn false).refreshTables id "contiv/vpp-policy-"
          reversedOrders).tables.list table) ∧
      ((cachedPods.txnAfter id "contiv/vpp-policy-" true
        isolatedAndOpen.calls.reverse).changes id "contiv/vpp-policy-"
          ⟨reversedOrders, .insertion, .insertion⟩ (some dumpedPods)
          cachedPods).2 = some ([], []) := by
  have hips := distinctPodIPs_cachedPods
  obtain ⟨horders, hchanges⟩ :=
    refreshTables_unordered id "contiv/vpp-policy-"
  refine ⟨hips, by decide +kernel, horders _ _ _ hips, (hchanges
    [isolatedAndOpen] _ _ cachedPods rfl hips).2 ⟨?_, ?_⟩ dumpedPods ?_⟩
  · intro ns nsConfig hmem
    refine lookup_cachedPods.mpr ?_
    simpa [isolatedAndOpen, or_comm] using hmem
  · intro _ ns nsConfig hns
    simpa [isolatedAndOpen, or_comm] using lookup_cachedPods.mp hns
  · intro table
    rw [filter_dumpedPods]

end ContivVPP.SessionCache
