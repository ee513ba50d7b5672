import ContivVPP.MissingPods
import ContivVPP.NetTextIPv6

/-!
# Networks of generated rules

The networks in the rules of `generateRules` are those of pods, which stand for
a single address in its 16-byte form, and those of IP blocks, parsed from text
or left over when the exceptions of a block are taken out.
-/

namespace ContivVPP.Configurator

open Net K8s Renderer KeyedAppend PartialLoops

def GeneratedNetwork (n : IPNet) : Prop :=
  n = .any ∨ n.OneHost ∨ n.Block

def HasGeneratedNetworks (rule : ContivRule) : Prop :=
  GeneratedNetwork rule.srcNetwork ∧ GeneratedNetwork rule.destNetwork

def Match.BlocksParsed (m : Match) : Prop :=
  ∀ block ∈ m.ipBlocks.getD [], (∃ text, parseCIDR text = some block.network) ∧
      ∀ e ∈ block.except, ∃ text, parseCIDR text = some e

theorem knownPeer_eq_some {lookupPod : LookupPod} {pod : PodID}
    {peer : PeerPod} (h : knownPeer lookupPod pod = some peer) :
    ∃ data, lookupPod pod = (true, some data) ∧
      getOneHostSubnet data.ipAddress = some peer.ipNet := by
  unfold knownPeer at h
  split at h
  · next data hlookup =>
      split_ifs at h
      obtain ⟨n, hn, rfl⟩ := Option.map_eq_some_iff.mp h
      exact ⟨data, hlookup, hn⟩
  · cases h

theorem knownPeer_oneHost {lookupPod : LookupPod} {pod : PodID}
    {peer : PeerPod} (h : knownPeer lookupPod pod = some peer) :
    peer.ipNet.OneHost := by
  obtain ⟨_, _, hn⟩ := knownPeer_eq_some h
  exact getOneHostSubnet_oneHost hn

theorem collectSubnets_block {blocks : List IPBlock}
    (h : ∀ block ∈ blocks, block.network.Block ∧ ∀ e ∈ block.except, e.Block) :
    ∀ n ∈ collectSubnets blocks, n.Block := by
  intro n hn
  unfold collectSubnets at hn
  split at hn
  · cases hn
  · next last hlast =>
      obtain ⟨ref, href, rfl⟩ := List.mem_map.mp hn
      obtain ⟨block, hblock, href⟩ := List.mem_flatMap.mp href
      obtain ⟨hnetwork, hexcept⟩ := h block hblock
      cases ref with
      | loopVar => exact (h last (List.mem_of_getLast? hlast)).1
      | new n =>
          have hstart : ∀ s ∈ [NetRef.loopVar],
              (NetRef.load block.network s).Block := by
            intro s hs
            rw [List.mem_singleton.mp hs]
            exact hnetwork
          exact subtractExcepts_block (fun _ => rfl) hstart hexcept (.new n) href

section Networks

variable {N : IPNet → Prop}

theorem portRules_networks {direction : MatchType} {name : String}
    {network : IPNet} {ports : List Port} (hany : N .any) (h : N network) :
    ∀ rule ∈ portRules direction name network ports,
      N rule.srcNetwork ∧ N rule.destNetwork := by
  have hpermit : ∀ id protocol port,
      N (permitRule direction id network protocol port).srcNetwork ∧
        N (permitRule direction id network protocol port).destNetwork := by
    intro id protocol port
    cases direction with
    | ingress => exact ⟨h, hany⟩
    | egress => exact ⟨hany, h⟩
  intro rule hrule
  unfold portRules at hrule
  split_ifs at hrule
  · rcases List.mem_pair.mp hrule with rfl | rfl
    · exact hpermit _ _ _
    · exact hpermit _ _ _
  · obtain ⟨port, _, rfl⟩ := List.mem_map.mp hrule
    exact hpermit _ _ _

theorem matchRules_networks {direction : MatchType} {policyID : PolicyID}
    {m : Match} {peers : List PeerPod} (hany : N .any)
    (hpeers : ∀ peer ∈ peers, N peer.ipNet)
    (hblocks : ∀ n ∈ collectSubnets (m.ipBlocks.getD []), N n) :
    ∀ rule ∈ matchRules direction policyID m peers,
      N rule.srcNetwork ∧ N rule.destNetwork := by
  intro rule hrule
  simp only [matchRules, List.mem_append, List.mem_flatMap] at hrule
  rcases hrule with (hnone | ⟨peer, hpeer, hrule⟩) | ⟨n, hn, hrule⟩
  · split_ifs at hnone
    · exact portRules_networks hany hany rule hnone
    · cases hnone
  · exact portRules_networks hany (hpeers peer hpeer) rule hrule
  · exact portRules_networks hany (hblocks n hn) rule hrule

end Networks

/-! ## Rules that were generated -/

section Generated

variable {lookupPod : LookupPod} {direction : MatchType}
  {policies : List ContivPolicy} {rules : List ContivRule}

theorem knownPeer_honest (lookupPod : LookupPod) :
    knownPeer lookupPod.honest = knownPeer lookupPod := by
  funext pod
  rcases hlookup : lookupPod pod with ⟨found, data⟩
  cases found <;> cases data <;>
    simp [knownPeer, LookupPod.honest, hlookup]

/-- A generated rule comes from a match, or it denies the rest because some
policy does not permit everything. -/
theorem mem_generateRules
    (h : generateRules lookupPod direction policies = some rules)
    {rule : ContivRule} (hrule : rule ∈ rules) :
    (∃ policy ∈ policies, ∃ m ∈ policy.matchesOf direction,
      rule ∈ matchRules direction policy.id m (m.peers lookupPod)) ∨
    rule ∈ denyTheRest ∧ ∃ policy ∈ policies, policy.applies direction = true ∧
        ∀ m ∈ policy.matchesOf direction, ¬ m.allowsAll = true := by
  rw [generateRules_honest (not_missing_of_generateRules h),
    generateRules_eq lookupPod.honest_sound] at h
  obtain rfl := Option.some.inj h
  rcases List.mem_append.mp hrule with hrule | hrule
  · have hmem := ((mem_appendAllNew.mp hrule).resolve_left (by simp)).1.mem
    obtain ⟨policy, hpolicy, m, hm, hrule⟩ := mem_candidateRules.mp hmem
    rw [Match.peers, knownPeer_honest] at hrule
    exact Or.inl ⟨policy, hpolicy, m, hm, hrule⟩
  · split_ifs at hrule with hdeny
    · simp only [Bool.and_eq_true, List.any_eq_true, Bool.not_eq_true',
        List.any_eq_false] at hdeny
      obtain ⟨⟨policy, hpolicy, happlies⟩, hnone⟩ := hdeny
      refine Or.inr ⟨hrule, policy, hpolicy, happlies, fun m hm hall => ?_⟩
      exact hnone policy hpolicy ⟨m, hm, hall⟩
    · cases hrule

end Generated

theorem Match.BlocksParsed.block {m : Match} (h : m.BlocksParsed) :
    ∀ n ∈ collectSubnets (m.ipBlocks.getD []), n.Block := by
  refine collectSubnets_block fun block hblock => ?_
  obtain ⟨⟨_, hnetwork⟩, hexcept⟩ := h block hblock
  refine ⟨parseCIDR_block hnetwork, fun e he => ?_⟩
  obtain ⟨_, htext⟩ := hexcept e he
  exact parseCIDR_block htext

theorem generateRules_networks {lookupPod : LookupPod}
    {direction : MatchType} {policies : List ContivPolicy}
    {rules : List ContivRule}
    (h : generateRules lookupPod direction policies = some rules)
    (hparsed : ∀ policy ∈ policies, ∀ m ∈ policy.matchList, m.BlocksParsed) :
    ∀ rule ∈ rules, HasGeneratedNetworks rule := by
  intro rule hrule
  rcases mem_generateRules h hrule with ⟨policy, hpolicy, m, hm, hrule⟩ |
    ⟨hrule, _⟩
  · refine matchRules_networks (Or.inl rfl) (fun peer hpeer => ?_) ?_ rule hrule
    · obtain ⟨pod, _, hpod⟩ := List.mem_filterMap.mp hpeer
      exact Or.inr (Or.inl (knownPeer_oneHost hpod))
    · intro n hn
      exact Or.inr (Or.inr ((hparsed policy hpolicy m
        (mem_matchesOf.mp hm).2.1).block n hn))
  · rcases List.mem_pair.mp hrule with rfl | rfl <;>
      exact ⟨Or.inl rfl, Or.inl rfl⟩

end ContivVPP.Configurator
