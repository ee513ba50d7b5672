import ContivVPP.GenerateRulesVerdict
import ContivVPP.K8sKeys

/-!
# Identifiers of generated rules

The identifier of a rule is made of the policy, of the peer or subnet that the
rule is for, and of the port.  The parts are joined by dashes, and dashes may
stand in the names too.  The port can be read back from the end, and the
namespace of the policy from the beginning, but not where the name of the
policy ends.  So two rules share an identifier exactly if they have the same
port and their policies, of one namespace, continue with the same text.
-/

namespace ContivVPP.Configurator

open Net K8s Renderer KeyedAppend

/-! ## Targets of a match -/

/-- What the rules of a match are made for: any peer, a pod or a subnet.  The
text follows the policy in the identifiers. -/
structure Target where
  text : String
  network : IPNet
  deriving DecidableEq, Repr

def Match.targets (lookupPod : LookupPod) (m : Match) : List Target :=
  (if m.matchesAnyPeer then [⟨"", .any⟩] else []) ++
  ((m.peers lookupPod).map fun peer => ⟨"-" ++ peer.id.string, peer.ipNet⟩) ++
  (collectSubnets (m.ipBlocks.getD [])).map fun subnet =>
    ⟨"-" ++ subnet.string, subnet⟩

def Match.allPorts (m : Match) : List Port :=
  if m.ports = [] then [⟨.tcp, 0⟩, ⟨.udp, 0⟩] else m.ports

def Target.rule (direction : MatchType) (policyID : PolicyID) (t : Target)
    (port : Port) : ContivRule :=
  permitRule direction (policyID.string ++ t.text ++ "-" ++ port.string)
    t.network port.protocol.renderer port.number

theorem portRules_eq (direction : MatchType) (policyID : PolicyID) (t : Target)
    (m : Match) :
    portRules direction (policyID.string ++ t.text) t.network m.ports =
      m.allPorts.map (t.rule direction policyID) := by
  unfold portRules Match.allPorts
  split
  next =>
    have htcp : Port.string ⟨.tcp, 0⟩ = "TCP:ANY" := rfl
    have hudp : Port.string ⟨.udp, 0⟩ = "UDP:ANY" := rfl
    simp only [List.map_cons, List.map_nil, Target.rule, htcp, hudp,
      String.append_assoc]
    rfl
  next => rfl

variable {policyID : PolicyID} {rule : ContivRule}

theorem mem_matchRules {lookupPod : LookupPod} {direction : MatchType}
    {m : Match} :
    rule ∈ matchRules direction policyID m (m.peers lookupPod) ↔
      ∃ t ∈ m.targets lookupPod, ∃ port ∈ m.allPorts,
        t.rule direction policyID port = rule := by
  have hrules : matchRules direction policyID m (m.peers lookupPod) =
      (m.targets lookupPod).flatMap fun t =>
        m.allPorts.map (t.rule direction policyID) := by
    simp only [← portRules_eq, matchRules, Match.targets, List.flatMap_append,
      List.flatMap_map, String.append_assoc]
    split <;> simp
  simp [hrules, List.mem_flatMap]

/-! ## Reading the parts -/

theorem dash_notMem_port (port : Port) : '-' ∉ port.string.toList := by
  have hnumber : '-' ∉ (port.number.toNat.repr).toList := fun hmem =>
    absurd (Texts.isDigit_of_mem_repr hmem) (by decide)
  unfold Port.string
  simp only
  split
  next => cases port.protocol <;> decide
  next =>
    simp only [String.toList_append, List.mem_append, not_or]
    refine ⟨⟨?_, by decide⟩, hnumber⟩
    cases port.protocol <;> decide

theorem Port.string_inj {port port' : Port} :
    port.string = port'.string ↔ port = port' := by
  have hany : ∀ n : ℕ, "ANY" ≠ n.repr := by
    intro n heq
    have hmem : 'A' ∈ n.repr.toList := by
      rw [← heq]
      decide
    exact absurd (Texts.isDigit_of_mem_repr hmem) (by decide)
  -- The text is the protocol, a colon and the number, where `ANY` is zero.
  have hstring : ∀ port : Port, port.string =
      (if port.protocol = .udp then "UDP" else "TCP") ++ ":" ++
        if port.number = 0 then "ANY" else port.number.toNat.repr := by
    intro port
    unfold Port.string
    simp only
    split <;> simp [String.append_assoc, toString]
  have hcolon : ∀ protocol : ProtocolType,
      ':' ∉ (if protocol = .udp then "UDP" else "TCP").toList := by
    intro protocol
    cases protocol <;> decide
  refine ⟨fun heq => ?_, fun heq => by rw [heq]⟩
  obtain ⟨protocol, number⟩ := port
  obtain ⟨protocol', number'⟩ := port'
  rw [hstring, hstring, Texts.sep_inj_left rfl (hcolon _) (hcolon _)] at heq
  obtain ⟨hprotocol, hnumber⟩ := heq
  have hprotocol : protocol = protocol' := by
    cases protocol <;> cases protocol' <;> simp_all
  have hnumber : number = number' := by
    simp only at hnumber
    split at hnumber
    next hzero =>
      split at hnumber
      next hzero' => rw [hzero, hzero']
      next => exact absurd hnumber (hany _)
    next =>
      split at hnumber
      next => exact absurd hnumber.symm (hany _)
      next => exact UInt16.toNat_inj.mp (Texts.repr_inj.mp hnumber)
  rw [hprotocol, hnumber]

/-- Rules share an identifier exactly if they have the same port and their
policies, of one namespace, continue with the same text. -/
theorem Target.rule_id_eq_iff {direction : MatchType} {policyID' : PolicyID}
    (hns : Slashless policyID.ns) (hns' : Slashless policyID'.ns)
    {t t' : Target} {port port' : Port} :
    (t.rule direction policyID port).id = (t'.rule direction policyID' port').id ↔
      (policyID.ns = policyID'.ns ∧
        policyID.name ++ t.text = policyID'.name ++ t'.text) ∧
        port = port' := by
  change policyID.string ++ t.text ++ "-" ++ port.string =
    policyID'.string ++ t'.text ++ "-" ++ port'.string ↔ _
  rw [Texts.sep_inj_right rfl (dash_notMem_port port) (dash_notMem_port port'),
    Port.string_inj]
  have hassoc : ∀ (id : PolicyID) (text : String),
      id.string ++ text = id.ns ++ "/" ++ (id.name ++ text) :=
    fun _ _ => String.append_assoc
  rw [hassoc, hassoc, slash_inj_left hns hns']

theorem Target.rule_eq_iff {direction : MatchType} {policyID' : PolicyID}
    {t t' : Target} {port : Port} (hid : (t.rule direction policyID port).id =
      (t'.rule direction policyID' port).id) :
    t.rule direction policyID port = t'.rule direction policyID' port ↔
      t.network = t'.network := by
  cases direction <;> simp_all [Target.rule, permitRule]

/-! ## De-duplication -/

/-- The rules that are constructed, before rules with a known identifier are
left out. -/
def constructedRules (lookupPod : LookupPod) (direction : MatchType)
    (policies : List ContivPolicy) : List ContivRule :=
  candidateRules lookupPod direction policies ++
    if policies.any (ContivPolicy.applies direction) &&
        !policies.any fun policy =>
          (policy.matchesOf direction).any Match.allowsAll
    then denyTheRest else []

/-- A rule is known by its identifier: rules with the same one have the same
content, each rule is there with its traffic, and none is there twice. -/
structure Identified (constructed returned : List ContivRule) : Prop where
  same : ∀ rule ∈ constructed, ∀ rule' ∈ constructed, rule.id = rule'.id →
    rule = rule'
  kept : ∀ rule ∈ constructed, ∃ rule' ∈ returned, rule'.id = rule.id ∧
    rule'.action = rule.action ∧
      ∀ t, rule'.matchesTraffic t = rule.matchesTraffic t
  distinct : (returned.map ContivRule.id).Nodup

/-- Where two policies of a namespace continue with the same text, for a port
in common, there the text stands for the same network. -/
def Unambiguous (lookupPod : LookupPod) (direction : MatchType)
    (policies : List ContivPolicy) : Prop :=
  ∀ policy ∈ policies, ∀ policy' ∈ policies,
    ∀ m ∈ policy.matchesOf direction, ∀ m' ∈ policy'.matchesOf direction,
    ∀ t ∈ m.targets lookupPod, ∀ t' ∈ m'.targets lookupPod,
    ∀ port ∈ m.allPorts, port ∈ m'.allPorts → policy.id.ns = policy'.id.ns →
      policy.id.name ++ t.text = policy'.id.name ++ t'.text →
        t.network = t'.network

section Policies

variable {lookupPod : LookupPod} {direction : MatchType}
  {policies : List ContivPolicy}

theorem mem_candidateRules_iff :
    rule ∈ candidateRules lookupPod direction policies ↔
      ∃ policy ∈ policies, ∃ m ∈ policy.matchesOf direction,
        ∃ t ∈ m.targets lookupPod, ∃ port ∈ m.allPorts,
          t.rule direction policy.id port = rule := by
  simp only [mem_candidateRules, mem_matchRules]

theorem candidateRules_same_iff
    (hns : ∀ policy ∈ policies, Slashless policy.id.ns) :
    (∀ rule ∈ candidateRules lookupPod direction policies,
      ∀ rule' ∈ candidateRules lookupPod direction policies,
        rule.id = rule'.id → rule = rule') ↔
      Unambiguous lookupPod direction policies := by
  constructor
  · intro hsame policy hpolicy policy' hpolicy' m hm m' hm' t ht t' ht' port
      hport hport' hnamespace htext
    have hid : (t.rule direction policy.id port).id =
        (t'.rule direction policy'.id port).id :=
      (Target.rule_id_eq_iff (hns policy hpolicy) (hns policy' hpolicy')).mpr
        ⟨⟨hnamespace, htext⟩, rfl⟩
    refine (Target.rule_eq_iff hid).mp (hsame _ ?_ _ ?_ hid)
    · exact mem_candidateRules_iff.mpr
        ⟨policy, hpolicy, m, hm, t, ht, port, hport, rfl⟩
    · exact mem_candidateRules_iff.mpr
        ⟨policy', hpolicy', m', hm', t', ht', port, hport', rfl⟩
  · intro hclear rule hrule rule' hrule' hid
    obtain ⟨policy, hpolicy, m, hm, t, ht, port, hport, rfl⟩ :=
      mem_candidateRules_iff.mp hrule
    obtain ⟨policy', hpolicy', m', hm', t', ht', port', hport', rfl⟩ :=
      mem_candidateRules_iff.mp hrule'
    obtain ⟨⟨hnamespace, htext⟩, rfl⟩ := (Target.rule_id_eq_iff
      (hns policy hpolicy) (hns policy' hpolicy')).mp hid
    exact (Target.rule_eq_iff hid).mpr (hclear policy hpolicy policy' hpolicy'
      m hm m' hm' t ht t' ht' port hport hport' hnamespace htext)

theorem mem_constructedRules
    (hrule : rule ∈ constructedRules lookupPod direction policies) :
    rule ∈ candidateRules lookupPod direction policies ∨ rule ∈ denyTheRest := by
  rw [constructedRules, List.mem_append] at hrule
  refine hrule.imp_right fun hdeny => ?_
  split at hdeny
  next => exact hdeny
  next => cases hdeny

theorem constructedRules_same_iff :
    (∀ rule ∈ constructedRules lookupPod direction policies,
      ∀ rule' ∈ constructedRules lookupPod direction policies,
        rule.id = rule'.id → rule = rule') ↔
      ∀ rule ∈ candidateRules lookupPod direction policies,
        ∀ rule' ∈ candidateRules lookupPod direction policies,
          rule.id = rule'.id → rule = rule' := by
  constructor
  · intro hsame rule hrule rule' hrule'
    exact hsame rule (List.mem_append_left _ hrule) rule'
      (List.mem_append_left _ hrule')
  · intro hsame rule hrule rule' hrule' hid
    rcases mem_constructedRules hrule with hrule | hrule
    · rcases mem_constructedRules hrule' with hrule' | hrule'
      · exact hsame rule hrule rule' hrule' hid
      · exact absurd hid (id_ne_of_mem_denyTheRest hrule hrule')
    · rcases mem_constructedRules hrule' with hrule' | hrule'
      · exact absurd hid.symm (id_ne_of_mem_denyTheRest hrule' hrule)
      · have hdeny : ∀ rule ∈ denyTheRest, ∀ rule' ∈ denyTheRest,
            rule.id = rule'.id → rule = rule' := by decide
        exact hdeny rule hrule rule' hrule' hid

/-- Whatever is returned was constructed, every identifier that was
constructed is returned, and none is returned twice. -/
theorem generateRules_returns (h : lookupPod.Sound) :
    ∃ rules, generateRules lookupPod direction policies = some rules ∧
      (∀ rule ∈ rules, rule ∈ constructedRules lookupPod direction policies) ∧
      (∀ rule ∈ constructedRules lookupPod direction policies,
        ∃ rule' ∈ rules, rule'.id = rule.id) ∧
      (rules.map ContivRule.id).Nodup := by
  refine ⟨_, generateRules_eq h direction policies, ?_, ?_, ?_⟩
  · intro rule hrule
    rw [List.mem_append] at hrule
    rw [constructedRules, List.mem_append]
    refine hrule.imp_left fun hmem => ?_
    exact ((mem_appendAllNew.mp hmem).resolve_left (by simp)).1.mem
  · intro rule hrule
    rw [constructedRules, List.mem_append] at hrule
    rcases hrule with hrule | hrule
    · obtain ⟨rule', hrule', hid⟩ : ∃ rule' ∈ appendRules []
          (candidateRules lookupPod direction policies), rule'.id = rule.id :=
        exists_key_appendAllNew hrule
      exact ⟨rule', List.mem_append_left _ hrule', hid⟩
    · exact ⟨rule, List.mem_append_right _ hrule, rfl⟩
  · have hnodup : ((appendRules []
        (candidateRules lookupPod direction policies)).map
          ContivRule.id).Nodup := nodup_keys_appendAllNew (by simp) _
    split
    next =>
      rw [List.map_append, List.nodup_append]
      refine ⟨hnodup, by decide, ?_⟩
      intro id hid id' hid' heq
      obtain ⟨rule, hrule, rfl⟩ := List.mem_map.mp hid
      obtain ⟨deny, hdeny, rfl⟩ := List.mem_map.mp hid'
      have hmem := ((mem_appendAllNew.mp hrule).resolve_left (by simp)).1.mem
      exact id_ne_of_mem_denyTheRest hmem hdeny heq
    next => rwa [List.append_nil]

/-- Rules are known by their identifiers exactly if the texts of the policies
are unambiguous. -/
theorem generateRules_identified_iff (h : lookupPod.Sound)
    (hns : ∀ policy ∈ policies, Slashless policy.id.ns) :
    ∃ rules, generateRules lookupPod direction policies = some rules ∧
      (Identified (constructedRules lookupPod direction policies) rules ↔
        Unambiguous lookupPod direction policies) := by
  obtain ⟨rules, hrules, hsub, hids, hnodup⟩ := generateRules_returns h
  refine ⟨rules, hrules, ?_⟩
  rw [← candidateRules_same_iff hns, ← constructedRules_same_iff]
  refine ⟨Identified.same, fun hsame => ⟨hsame, fun rule hrule => ?_, hnodup⟩⟩
  obtain ⟨rule', hrule', hid⟩ := hids rule hrule
  have heq := hsame rule' (hsub rule' hrule') rule hrule hid
  exact ⟨rule', hrule', hid, by rw [heq], fun t => by rw [heq]⟩

end Policies

/-! ## A name with a dash -/

def peersPolicy (name : String) (pod : PodID) : ContivPolicy where
  id := ⟨name, "default"⟩
  type := .ingress
  matchList := [
    { type := .ingress, pods := some [pod], ipBlocks := none, ports := [] }]

/-- The policy `allow` is for a pod of the namespace `x-prod`, the policy
`allow-x` for the pod with the same name of the namespace `prod`. -/
def dashedPolicies : List ContivPolicy :=
  [peersPolicy "allow" ⟨"web", "x-prod"⟩,
    peersPolicy "allow-x" ⟨"web", "prod"⟩]

def webPods : LookupPod := fun pod =>
  if pod = ⟨"web", "x-prod"⟩ then
    (true, some ⟨"web", "x-prod", [], "10.1.1.2"⟩)
  else if pod = ⟨"web", "prod"⟩ then
    (true, some ⟨"web", "prod", [], "10.1.1.3"⟩)
  else (false, none)

theorem webPods_sound : webPods.Sound := by
  intro pod hfound
  unfold webPods at hfound ⊢
  split_ifs at hfound ⊢ <;> simp_all

theorem prodIP_valid : ValidIP [10, 1, 1, 3] := by decide

def fromProd : Traffic where
  srcIP := [10, 1, 1, 3]
  destIP := [10, 1, 1, 9]
  protocol := .tcp
  srcPort := 5000
  destPort := 80
  srcValid := prodIP_valid
  destValid := by decide
  destPort_ne_zero := webRequest.destPort_ne_zero

def namedApart : List ContivPolicy :=
  [peersPolicy "allow" ⟨"web", "x-prod"⟩,
    peersPolicy "admit-x" ⟨"web", "prod"⟩]

theorem generateRules_identified_iff_namedApart :
    Unambiguous webPods .ingress namedApart ∧
    ∃ rules, generateRules webPods .ingress namedApart = some rules ∧
      rules.length = 6 ∧
      Identified (constructedRules webPods .ingress namedApart) rules := by
  have hclear : Unambiguous webPods .ingress namedApart := by
    unfold Unambiguous
    decide +kernel
  obtain ⟨rules, hrules, hiff⟩ := generateRules_identified_iff webPods_sound
    (by decide : ∀ policy ∈ namedApart, Slashless policy.id.ns)
  refine ⟨hclear, rules, hrules, ?_, hiff.mpr hclear⟩
  have hlength : (generateRules webPods .ingress namedApart).map
      List.length = some 6 := by decide +kernel
  simpa [hrules] using hlength

/-- The rules for the second pod have the identifiers of those for the first
and are dropped, so its traffic is denied. -/
theorem not_identified_of_dashed : (dashedPolicies.map ContivPolicy.id).Nodup ∧
      (∀ policy ∈ dashedPolicies,
        ValidName policy.id.ns ∧ ValidName policy.id.name) ∧
      (∃ rule ∈ constructedRules webPods .ingress dashedPolicies,
        ∃ rule' ∈ constructedRules webPods .ingress dashedPolicies,
          rule.id = rule'.id ∧ rule.matchesTraffic fromProd = true ∧
            rule'.matchesTraffic fromProd = false) ∧
      (generateRules webPods .ingress dashedPolicies).map
        (testTraffic · fromProd) = some .denied ∧
      expectedAction webPods .ingress dashedPolicies fromProd = .allowed := by
  decide +kernel

end ContivVPP.Configurator
