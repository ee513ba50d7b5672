import ContivVPP.RuleNetworks
import ContivVPP.SessionTableOrder

/-!
# Traces of an address or a pod in session tables

The tables that are built from a configuration have a rule with a given address
only if the configuration has it in one of its networks, and rules that stem
from a namespace only if one of the rules of this namespace is installed.
Combined rules are no exception: there are some for a namespace only if its
egress rules deny something.
-/

namespace ContivVPP.SessionCache

open Net Renderer GoMap Configurator

/-! ## Addresses of session rules -/

def hostPlen (x : IP) : ℕ := 8 * (Net.norm x).length

structure IsHost (n : IPNet) (x : IP) : Prop where
  address : Net.norm n.ip = Net.norm x
  plen : hostPlen x ≤ (maskOnes n.mask).toNat

def SessionRule.Carries (r : SessionRule) (x : IP) : Prop :=
  ∃ isIP4 : Bool, r.isIP4 = (if isIP4 then 1 else 0) ∧
    (isIP4 = true → (to4 x).isSome) ∧
    ((r.lclIP = addressBytes isIP4 x ∧ hostPlen x ≤ r.lclPlen.toNat) ∨
      (r.rmtIP = addressBytes isIP4 x ∧ hostPlen x ≤ r.rmtPlen.toNat))

section Address

variable {x : IP} {n : IPNet} {isIP4 : Bool}

theorem lt_hostPlen (hx : ValidIP x) : 1 < hostPlen x := by
  unfold hostPlen
  rcases norm_length hx with h | h <;> omega

theorem to4_eq_norm (ip : IP) :
    to4 ip = if (Net.norm ip).length = 4 then some (Net.norm ip)
      else none := by
  cases hto4 : to4 ip with
  | some y =>
      have hnorm : Net.norm ip = y := by rw [Net.norm, hto4, Option.getD_some]
      rw [hnorm, if_pos (to4_length hto4)]
  | none =>
      have hnorm : Net.norm ip = ip := by rw [Net.norm, hto4, Option.getD_none]
      rw [hnorm, if_neg]
      intro hlen
      rw [to4_of_length_four hlen] at hto4
      cases hto4

theorem to16_eq_norm {ip : IP} (hip : ValidIP ip) :
    to16 ip = some (if (Net.norm ip).length = 4 then
      v4InV6Prefix ++ Net.norm ip else Net.norm ip) := by
  rcases hip with hlen | hlen
  · have hfour : ip.length = 4 := hlen
    rw [norm_of_length_four hfour, if_pos hfour]
    exact if_pos hlen
  · have hto16 : to16 ip = some ip := by
      simp [to16, hlen, ipv4Len, ipv6Len]
    rw [hto16]
    by_cases hmapped : ip.take 12 = v4InV6Prefix
    · have hto4 : to4 ip = some (ip.drop 12) := by
        simp [to4, hlen, hmapped, ipv4Len, ipv6Len]
      have hnorm : Net.norm ip = ip.drop 12 := by
        rw [Net.norm, hto4, Option.getD_some]
      rw [hnorm, if_pos (to4_length hto4), ← hmapped, List.take_append_drop]
    · have hto4 : to4 ip = none := by
        simp [to4, hlen, hmapped, ipv4Len, ipv6Len]
      have hnorm : Net.norm ip = ip := by
        rw [Net.norm, hto4, Option.getD_none]
      rw [hnorm, if_neg]
      rw [hlen]
      decide

theorem addressBytes_iff (hn : ValidIP n.ip) (hx : ValidIP x)
    (h4 : isIP4 = true → (to4 n.ip).isSome) :
    (isIP4 = true → (to4 x).isSome) ∧
      addressBytes isIP4 n.ip = addressBytes isIP4 x ↔
    Net.norm n.ip = Net.norm x := by
  constructor
  · rintro ⟨hx4, hbytes⟩
    exact norm_eq_of_addressBytes hn hx (fun h => ⟨h4 h, hx4 h⟩) hbytes
  · intro hnorm
    have hto4 : to4 n.ip = to4 x := by
      rw [to4_eq_norm, to4_eq_norm x, hnorm]
    have hto16 : to16 n.ip = to16 x := by
      rw [to16_eq_norm hn, to16_eq_norm hx, hnorm]
    refine ⟨fun h => hto4 ▸ h4 h, ?_⟩
    rw [addressBytes, addressBytes, hto4, hto16]

theorem isHost_iff (hn : ValidIP n.ip) (hx : ValidIP x)
    (h4 : isIP4 = true → (to4 n.ip).isSome) :
    IsHost n x ↔ (isIP4 = true → (to4 x).isSome) ∧
      addressBytes isIP4 n.ip = addressBytes isIP4 x ∧
      hostPlen x ≤ (maskOnes n.mask).toNat := by
  rw [← and_assoc, addressBytes_iff hn hx h4]
  exact ⟨fun h => ⟨h.address, h.plen⟩, fun h => ⟨h.1, h.2⟩⟩

theorem not_isHost_of_empty (hx : ValidIP x) (hn : n.ip = []) : ¬ IsHost n x := by
  intro h
  have hnorm := h.address
  rw [hn] at hnorm
  have hlen := congrArg List.length hnorm
  have hempty : (Net.norm ([] : IP)).length = 0 := rfl
  rw [hempty] at hlen
  rcases norm_length hx with h4 | h16 <;> omega

end Address

/-! ## Converted rules -/

/-- There are session rules for the rule; permits for all networks and ports
are not installed. -/
def installs (network : ContivRule → IPNet) (rule : ContivRule) : Prop :=
  ¬ ((network rule).ip.length = 0 ∧ rule.destPort = 0 ∧ rule.action = .permit)

def ValidNetwork (n : IPNet) : Prop := n.ip = [] ∨ ValidIP n.ip

section Convert

variable {md5Hash : String → String} {tagPrefix : String} {ns : UInt32}
  {ipAddr : IPNet} {rule : ContivRule} {r : SessionRule} {x : IP}

theorem installs_of_mem_convertEgressRule
    (h : r ∈ convertEgressRule md5Hash ns ipAddr tagPrefix rule) :
    installs ContivRule.srcNetwork rule := by
  rw [convertEgressRule] at h
  split_ifs at h with hskip
  · cases h
  · exact hskip
  · exact hskip

theorem carries_iff {isIP4 : Bool} (hflag : r.isIP4 = (if isIP4 then 1 else 0)) :
    r.Carries x ↔ (isIP4 = true → (to4 x).isSome) ∧
      ((r.lclIP = addressBytes isIP4 x ∧ hostPlen x ≤ r.lclPlen.toNat) ∨
        (r.rmtIP = addressBytes isIP4 x ∧ hostPlen x ≤ r.rmtPlen.toNat)) := by
  constructor
  · rintro ⟨isIP4', hflag', hrest⟩
    have hsame : isIP4 = isIP4' := by
      rw [hflag] at hflag'
      cases isIP4 <;> cases isIP4' <;> simp_all
    exact hsame ▸ hrest
  · intro h
    exact ⟨isIP4, hflag, h⟩

theorem egress_carries_iff (hip : ValidIP ipAddr.ip)
    (hsrc : ValidNetwork rule.srcNetwork) (hx : ValidIP x)
    (hr : r ∈ convertEgressRule md5Hash ns ipAddr tagPrefix rule) :
    r.Carries x ↔ IsHost ipAddr x ∨ IsHost rule.srcNetwork x := by
  have hplen := lt_hostPlen hx
  unfold convertEgressRule at hr
  split_ifs at hr with hskip hempty
  · cases hr
  · -- The remote network of each half is too large.
    have hsrcIP := List.length_eq_zero_iff.mp hempty
    rw [or_iff_left (not_isHost_of_empty hx hsrcIP)]
    have hr' : r.isIP4 = (if (to4 ipAddr.ip).isSome then 1 else 0) ∧
        r.lclIP = addressBytes (to4 ipAddr.ip).isSome ipAddr.ip ∧
        r.lclPlen = maskOnes ipAddr.mask ∧ r.rmtPlen = 1 := by
      rcases List.mem_pair.mp hr with rfl | rfl
      · simp [SessionRule.withTag, egressRule, hsrcIP, addressBytes]
      · simp [SessionRule.withTag, SessionRule.upperHalf, egressRule, hsrcIP,
          addressBytes]
    obtain ⟨hflag, hlcl, hlclPlen, hrmtPlen⟩ := hr'
    have hone : ¬ hostPlen x ≤ (1 : UInt8).toNat := by
      change ¬ hostPlen x ≤ 1
      omega
    rw [carries_iff hflag, hlcl, hlclPlen, hrmtPlen, isHost_iff hip hx fun h => h]
    simp only [hone, and_false, or_false]
  · have hvalid : ValidIP rule.srcNetwork.ip :=
      hsrc.resolve_left fun h => hempty (by rw [h]; rfl)
    have hlen : rule.srcNetwork.ip.length > 0 := Nat.pos_of_ne_zero hempty
    have hne : rule.srcNetwork.ip.isEmpty = false := by
      rw [List.isEmpty_eq_false_iff]
      exact List.length_pos_iff.mp hlen
    obtain rfl := List.mem_singleton.mp hr
    have hflag : ((egressRule ipAddr rule).withTag md5Hash tagPrefix
        (toString ns.toNat ++ "-egress-" ++ rule.id)).isIP4 =
          (if ((to4 ipAddr.ip).isSome && (to4 rule.srcNetwork.ip).isSome)
            then 1 else 0) := by
      simp [SessionRule.withTag, egressRule, hne]
    rw [carries_iff hflag, isHost_iff hip hx fun h =>
        (Bool.and_eq_true_iff.mp h).1,
      isHost_iff hvalid hx fun h => (Bool.and_eq_true_iff.mp h).2,
      ← and_or_left]
    simp [SessionRule.withTag, egressRule, hne, networkBytes, hlen, addressBytes]

theorem ingress_carries_iff (hdest : ValidNetwork rule.destNetwork)
    (hx : ValidIP x)
    (hr : r ∈ convertIngressRule md5Hash ns tagPrefix rule) :
    r.Carries x ↔ IsHost rule.destNetwork x := by
  have hplen := lt_hostPlen hx
  have hzero : ¬ hostPlen x ≤ (0 : UInt8).toNat := by
    change ¬ hostPlen x ≤ 0
    omega
  have hone : ¬ hostPlen x ≤ (1 : UInt8).toNat := by
    change ¬ hostPlen x ≤ 1
    omega
  by_cases hempty : rule.destNetwork.ip.length = 0
  · refine iff_of_false ?_
      (not_isHost_of_empty hx (List.length_eq_zero_iff.mp hempty))
    have hr' : r.lclPlen = 0 ∧ r.rmtPlen = 1 := by
      unfold convertIngressRule at hr
      split_ifs at hr
      · cases hr
      · simp only [List.mem_cons, List.not_mem_nil, or_false] at hr
        rcases hr with rfl | rfl | rfl | rfl | rfl <;> exact ⟨rfl, rfl⟩
    rintro ⟨_, _, _, hcarries⟩
    rw [hr'.1, hr'.2] at hcarries
    exact hcarries.elim (fun h => hzero h.2) fun h => hone h.2
  · have hvalid : ValidIP rule.destNetwork.ip :=
      hdest.resolve_left fun h => hempty (by rw [h]; rfl)
    obtain rfl := eq_of_mem_convertIngressRule hempty hr
    obtain ⟨hflag, hip⟩ := @ingressRule_address ns rule hvalid
    have hmask : (ingressRule ns rule).rmtPlen =
        maskOnes rule.destNetwork.mask := by
      simp [ingressRule, networkBytes, Nat.pos_of_ne_zero hempty]
    rw [@carries_iff ((ingressRule ns rule).withTag md5Hash tagPrefix
        (toString ns.toNat ++ "-ingress-" ++ rule.id)) x
        (to4 rule.destNetwork.ip).isSome hflag,
      isHost_iff hvalid hx fun h => h, ← hip, ← hmask]
    change _ ∧ ((_ ∧ hostPlen x ≤ (0 : UInt8).toNat) ∨ _) ↔ _
    simp only [hzero, and_false, false_or]
    rfl

end Convert

/-! ## Combined rules -/

section Combined

variable {orders : CombineOrders} {ns : UInt32} {nsConfig : NamespaceConfig}
  {rmt : UInt32 × NamespaceConfig} {rule : ContivRule}

theorem mem_combineWith {rules : List ContivRule} :
    rule ∈ combineWith orders ns nsConfig rules rmt ↔
      (rule ∈ rules ∧ drops ns nsConfig rmt rule = false) ∨
        rule ∈ addedFor orders ns nsConfig rmt := by
  rw [combineWith_eq, List.mem_append, List.mem_filter, Bool.not_eq_true']
  rfl

theorem mem_foldl_combineWith {rmts : List (UInt32 × NamespaceConfig)}
    {rules : List ContivRule}
    (h : rule ∈ rmts.foldl (combineWith orders ns nsConfig) rules) :
    rule ∈ rules ∨ ∃ rmt ∈ rmts, rule ∈ addedFor orders ns nsConfig rmt := by
  induction rmts generalizing rules with
  | nil => exact Or.inl h
  | cons rmt rmts ih =>
      rcases ih h with hrule | ⟨rmt', hrmt', hrule⟩
      · rcases mem_combineWith.mp hrule with ⟨hold, _⟩ | hadded
        · exact Or.inl hold
        · exact Or.inr ⟨rmt, List.mem_cons_self, hadded⟩
      · exact Or.inr ⟨rmt', List.mem_cons_of_mem rmt hrmt', hrule⟩

theorem exists_installs_of_addedFor (h : rule ∈ addedFor orders ns nsConfig rmt) :
    ∃ egress ∈ rmt.2.egress, installs ContivRule.srcNetwork egress := by
  obtain ⟨protocol, h⟩ := mem_addedFor.mp h
  obtain ⟨ports, hports, _⟩ := mem_addedRules.mp h
  have hdeny : hasDeny rmt.2.egress = true := by
    by_contra hdeny
    rw [listedPorts, Bool.not_eq_true _ |>.mp hdeny] at hports
    simp at hports
  obtain ⟨egress, hegress, haction⟩ := List.any_eq_true.mp hdeny
  refine ⟨egress, hegress, fun hskip => ?_⟩
  rw [hskip.2.2] at haction
  cases haction

theorem dest_of_mem_addedFor (h : rule ∈ addedFor orders ns nsConfig rmt) :
    rule.destNetwork = rmt.2.ipAddr := by
  obtain ⟨protocol, h⟩ := mem_addedFor.mp h
  exact (fields_of_mem_addedRules h).2

end Combined

/-! ## Tables of a configuration -/

variable {table : TableID}

section Tables

variable {md5Hash : String → String} {tagPrefix : String}
  {orders : RefreshOrders} {config : Config}

def rulesFor (md5Hash : String → String) (tagPrefix : String)
    (orders : RefreshOrders) (config : Config) :
    TableID → List SessionRule
  | .global => (range orders.global config).flatMap
      (globalRules md5Hash tagPrefix)
  | .ofNamespace ns =>
      localRules md5Hash tagPrefix (orders.combine ns) config ns

theorem tableFor_built {srl : SessionRuleList}
    (h : tableFor md5Hash tagPrefix orders config table = some srl) :
    BuiltFrom srl table (rulesFor md5Hash tagPrefix orders config table) := by
  cases table with
  | global =>
      obtain rfl := Option.some.inj h
      exact .foldl
  | ofNamespace ns =>
      obtain ⟨_, _, rfl⟩ := Option.map_eq_some_iff.mp h
      exact BuiltFrom.empty.insert localRules_table

def Tabulates (md5Hash : String → String) (tagPrefix : String)
    (orders : RefreshOrders) (cache : SessionRuleCache) : Prop :=
  ∀ table, cache.tables.list table =
    tableFor md5Hash tagPrefix orders cache.config table

variable {cache : SessionRuleCache}

theorem Tabulates.mem_rulesFor (h : Tabulates md5Hash tagPrefix orders cache)
    {r : SessionRule} (hr : r ∈ cache.tables.rules table) :
    r ∈ rulesFor md5Hash tagPrefix orders cache.config table := by
  rw [SessionTables.rules, h table] at hr
  cases htable : tableFor md5Hash tagPrefix orders cache.config table with
  | none =>
      rw [htable] at hr
      cases hr
  | some srl =>
      rw [htable] at hr
      exact (tableFor_built htable).only r hr

end Tables

/-! ## Traces -/

/-- The rule stems from the rules of a namespace, up to its tag: it is
converted from one of its egress rules, it is in the local table of the
namespace, which has an ingress rule to install, or it restricts the traffic of
another namespace to what the egress rules allow. -/
inductive DerivedFrom (md5Hash : String → String) (tagPrefix : String)
    (config : Config) (ns : UInt32) (nsConfig : NamespaceConfig) :
    TableID → SessionRule → Prop
  | egress {r r' : SessionRule}
      (hr : r' ∈ globalRules md5Hash tagPrefix (ns, nsConfig))
      (hsame : r'.SameUpToTag r) :
      DerivedFrom md5Hash tagPrefix config ns nsConfig .global r
  | ingress {r : SessionRule} {rule : ContivRule}
      (hrule : rule ∈ nsConfig.ingress)
      (hinstalls : installs ContivRule.destNetwork rule) :
      DerivedFrom md5Hash tagPrefix config ns nsConfig (.ofNamespace ns) r
  | combined {r r' : SessionRule} {orders : CombineOrders} {ns' : UInt32}
      {nsConfig' : NamespaceConfig} {rule : ContivRule}
      (hns : config.lookup ns' = some nsConfig')
      (hrule : rule ∈ addedFor orders ns' nsConfig' (ns, nsConfig))
      (hr : r' ∈ convertIngressRule md5Hash ns' tagPrefix rule)
      (hsame : r'.SameUpToTag r) :
      DerivedFrom md5Hash tagPrefix config ns nsConfig (.ofNamespace ns') r

structure Silent (nsConfig : NamespaceConfig) : Prop where
  ingress : ∀ rule ∈ nsConfig.ingress, ¬ installs ContivRule.destNetwork rule
  egress : ∀ rule ∈ nsConfig.egress, ¬ installs ContivRule.srcNetwork rule

structure Avoids (x : IP) (nsConfig : NamespaceConfig) : Prop where
  address : IsHost nsConfig.ipAddr x →
    ∀ rule ∈ nsConfig.egress, ¬ installs ContivRule.srcNetwork rule
  ingress : ∀ rule ∈ nsConfig.ingress, ¬ IsHost rule.destNetwork x
  egress : ∀ rule ∈ nsConfig.egress, ¬ IsHost rule.srcNetwork x

structure ValidConfig (config : Config) : Prop where
  address : ∀ ns nsConfig, config.lookup ns = some nsConfig →
    nsConfig.ipAddr.OneHost
  ingress : ∀ ns nsConfig, config.lookup ns = some nsConfig →
    ∀ rule ∈ nsConfig.ingress, ValidNetwork rule.destNetwork
  egress : ∀ ns nsConfig, config.lookup ns = some nsConfig →
    ∀ rule ∈ nsConfig.egress, ValidNetwork rule.srcNetwork

section Traces

variable {md5Hash : String → String} {tagPrefix : String}
  {orders : RefreshOrders} {cache : SessionRuleCache} {ns : UInt32}
  {nsConfig : NamespaceConfig} {rule : ContivRule} {r : SessionRule} {x : IP}

theorem mem_globalRules : r ∈ globalRules md5Hash tagPrefix (ns, nsConfig) ↔
      ∃ rule ∈ nsConfig.egress, r ∈ convertEgressRule md5Hash ns
        nsConfig.ipAddr tagPrefix rule :=
  List.mem_flatMap

theorem mem_localRules {o : CombineOrders} {config : Config}
    (hns : config.lookup ns = some nsConfig) :
    r ∈ localRules md5Hash tagPrefix o config ns ↔
      ∃ rule ∈ (range o.config config).foldl (combineWith o ns nsConfig)
        nsConfig.ingress, r ∈ convertIngressRule md5Hash ns tagPrefix rule := by
  have hcombined : getCombinedIngressRules o config ns =
      some ((range o.config config).foldl (combineWith o ns nsConfig)
        nsConfig.ingress) := by
    rw [getCombinedIngressRules, hns]
    rfl
  rw [localRules, hcombined, Option.getD_some, convertIngressRules,
    List.mem_flatMap]

theorem Silent.not_derivedFrom {config : Config} (hsilent : Silent nsConfig) :
    ¬ DerivedFrom md5Hash tagPrefix config ns nsConfig table r := by
  intro hderived
  cases hderived with
  | egress hr hsame =>
      obtain ⟨rule, hrule, hr⟩ := mem_globalRules.mp hr
      exact hsilent.egress rule hrule (installs_of_mem_convertEgressRule hr)
  | ingress hrule hinstalls => exact hsilent.ingress _ hrule hinstalls
  | combined hns hrule hr hsame =>
      obtain ⟨egress, hegress, hinstalls⟩ :=
        exists_installs_of_addedFor hrule
      exact hsilent.egress egress hegress hinstalls

theorem Tabulates.not_carries (h : Tabulates md5Hash tagPrefix orders cache)
    (hvalid : ValidConfig cache.config) (hx : ValidIP x)
    (havoids : ∀ ns nsConfig, cache.config.lookup ns = some nsConfig →
      Avoids x nsConfig) (hr : r ∈ cache.tables.rules table) :
    ¬ r.Carries x := by
  intro hcarries
  have hmem := h.mem_rulesFor hr
  cases table with
  | global =>
      obtain ⟨⟨ns, nsConfig⟩, hrange, hmem⟩ := List.mem_flatMap.mp hmem
      have hns := mem_range.mp hrange
      obtain ⟨rule, hrule, hconvert⟩ := mem_globalRules.mp hmem
      have hinstalls := installs_of_mem_convertEgressRule hconvert
      rw [egress_carries_iff (Or.inr (hvalid.address ns nsConfig
        hns).length) (hvalid.egress ns nsConfig hns rule hrule) hx
        hconvert] at hcarries
      rcases hcarries with hhost | hhost
      · exact (havoids ns nsConfig hns).address hhost rule hrule hinstalls
      · exact (havoids ns nsConfig hns).egress rule hrule hhost
  | ofNamespace ns =>
      cases hns : cache.config.lookup ns with
      | none =>
          simp [rulesFor, localRules, getCombinedIngressRules, hns,
            convertIngressRules] at hmem
      | some nsConfig =>
          obtain ⟨rule, hrule, hconvert⟩ := (mem_localRules hns).mp hmem
          rcases mem_foldl_combineWith hrule with hold | ⟨rmt, hrmt, hadded⟩
          · rw [ingress_carries_iff (hvalid.ingress ns nsConfig hns rule
              hold) hx hconvert] at hcarries
            exact (havoids ns nsConfig hns).ingress rule hold hcarries
          · have hrmt := mem_range.mp hrmt
            have hone := hvalid.address rmt.1 rmt.2 hrmt
            have hdest := dest_of_mem_addedFor hadded
            rw [ingress_carries_iff (hdest ▸ Or.inr (Or.inr hone.length))
              hx hconvert, hdest] at hcarries
            obtain ⟨egress, hegress, hinstalls⟩ :=
              exists_installs_of_addedFor hadded
            exact (havoids rmt.1 rmt.2 hrmt).address hcarries egress
              hegress hinstalls

end Traces

end ContivVPP.SessionCache
