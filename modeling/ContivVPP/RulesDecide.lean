import ContivVPP.RuleIDs
import ContivVPP.SubnetPieces

/-!
# Policies whose rules decide as they say

Three things can make the generated rules differ from the policies: a block
that is read as the last block of its match, the block of mapped addresses among
the pieces of an IPv6 block, and a rule that is dropped because an earlier one
has its identifier.  Without them the rules decide all traffic as the policies
say.  Traffic that only misread blocks permit is denied.
-/

namespace ContivVPP.Configurator

open Net K8s Renderer KeyedAppend

/-! ## Blocks that are read as they are -/

def IPBlock.StandsFor (last block : IPBlock) : Prop :=
  block.network = last.network ∨ last.whole = true ∧
      last.network.prefixLen ≤ block.network.prefixLen ∧
      last.network.contains block.network.ip = true

instance (last block : IPBlock) : Decidable (last.StandsFor block) :=
  inferInstanceAs (Decidable (_ ∨ _))

def IPBlock.KeepsMapped (block : IPBlock) : Prop :=
  ¬ (Encloses block.network ∧ uncoversMapped block.except = true)

instance (block : IPBlock) : Decidable block.KeepsMapped :=
  inferInstanceAs (Decidable (¬ _))

/-- The blocks of a match: the last one stands for all that lose nothing to
their exceptions, and none leaves the mapped block. -/
def WellRead (blocks : List IPBlock) : Prop :=
  (∀ last ∈ blocks.getLast?, ∀ block ∈ blocks, block.whole = true →
    last.StandsFor block) ∧
  ∀ block ∈ blocks, block.KeepsMapped

instance (blocks : List IPBlock) : Decidable (WellRead blocks) :=
  inferInstanceAs (Decidable (_ ∧ _))

section Blocks

variable {blocks : List IPBlock} {block last : IPBlock} {x : IP}

theorem IPBlock.holds_iff : block.holds x = true ↔
    block.network.contains x = true ∧
      ∀ e ∈ block.except, ¬ e.contains x = true := by
  simp [IPBlock.holds]

theorem IPBlock.holds_of_whole (h : block.Canonical)
    (hwhole : block.whole = true) :
    block.holds x = true ↔ block.network.contains x = true := by
  rw [IPBlock.holds_iff, and_iff_left_of_imp]
  intro hx e he hxe
  have hoverlaps := overlaps_of_common h.1 (h.2 e he) hx hxe
  simp only [IPBlock.whole, List.all_eq_true, Bool.not_eq_true'] at hwhole
  rw [hwhole e he] at hoverlaps
  cases hoverlaps

theorem networkMatches_eq_contains {n : IPNet} (h : n.Canonical) :
    networkMatches n x = n.contains x := by
  have hlen : (n.ip.length == 0) = false := by
    rw [beq_eq_false_iff_ne]
    rcases h.family with h4 | h16 <;> omega
  rw [networkMatches, hlen, Bool.false_or]

theorem IPBlock.exists_remainder_iff (h : block.Canonical)
    (hmapped : block.KeepsMapped) :
    (∃ s ∈ block.remainder, networkMatches s x = true) ↔
      block.holds x = true := by
  have hremains := (remains_iff h.1 h.2).mpr hmapped
  rw [IPBlock.holds_iff, ← hremains.contains_iff]
  refine exists_congr fun s => and_congr_right fun hs => ?_
  rw [networkMatches_eq_contains (hremains.canonical s hs)]

theorem exists_mem_collectSubnets_iff
    (h : ∀ block ∈ blocks, block.Canonical) (hread : WellRead blocks) :
    (∃ s ∈ collectSubnets blocks, networkMatches s x = true) ↔
      ∃ block ∈ blocks, block.holds x = true := by
  cases hlast : blocks.getLast? with
  | none =>
      rw [List.getLast?_eq_none_iff] at hlast
      simp [hlast, collectSubnets]
  | some last =>
      have hmem : last ∈ blocks := List.mem_of_getLast? hlast
      have hmatch := @networkMatches_eq_contains x _ (h last hmem).1
      constructor
      · rintro ⟨s, hs, hx⟩
        obtain ⟨block, hblock, hs⟩ := (mem_collectSubnets h hlast).mp hs
        by_cases hwhole : block.whole = true
        · rw [if_pos hwhole, List.mem_singleton] at hs
          rw [hs, hmatch] at hx
          rcases hread.1 last hlast block hblock hwhole with
            hsame | ⟨hlastWhole, _⟩
          · exact ⟨block, hblock, (IPBlock.holds_of_whole (h block hblock)
              hwhole).mpr (hsame ▸ hx)⟩
          · exact ⟨last, hmem, (IPBlock.holds_of_whole (h last hmem)
              hlastWhole).mpr hx⟩
        · rw [if_neg hwhole] at hs
          exact ⟨block, hblock, (IPBlock.exists_remainder_iff (h block hblock)
            (hread.2 block hblock)).mp ⟨s, hs, hx⟩⟩
      · rintro ⟨block, hblock, hx⟩
        by_cases hwhole : block.whole = true
        · rw [IPBlock.holds_of_whole (h block hblock) hwhole] at hx
          refine ⟨last.network, (mem_collectSubnets h hlast).mpr
            ⟨block, hblock, by simp [hwhole]⟩, hmatch.trans ?_⟩
          rcases hread.1 last hlast block hblock hwhole with
            hsame | ⟨_, hle, hcontains⟩
          · exact hsame ▸ hx
          · exact contains_of_nested (h last hmem).1 (h block hblock).1 hle
              hcontains hx
        · obtain ⟨s, hs, hx⟩ := (IPBlock.exists_remainder_iff
            (h block hblock) (hread.2 block hblock)).mpr hx
          exact ⟨s, (mem_collectSubnets h hlast).mpr
            ⟨block, hblock, by rwa [if_neg hwhole]⟩, hx⟩

/-- An address that only blocks without loss hold is in none of the subnets,
if it is not in the last block. -/
theorem not_exists_mem_collectSubnets (h : ∀ block ∈ blocks, block.Canonical)
    (hmapped : ∀ block ∈ blocks, block.KeepsMapped)
    (honly : ∀ block ∈ blocks, block.holds x = true → block.whole = true)
    (hlast : ∀ last ∈ blocks.getLast?, ¬ last.network.contains x = true) :
    ¬ ∃ s ∈ collectSubnets blocks, networkMatches s x = true := by
  rintro ⟨s, hs, hx⟩
  cases hlast' : blocks.getLast? with
  | none => simp [collectSubnets, hlast'] at hs
  | some last =>
      obtain ⟨block, hblock, hs⟩ := (mem_collectSubnets h hlast').mp hs
      by_cases hwhole : block.whole = true
      · rw [if_pos hwhole, List.mem_singleton] at hs
        have hmem : last ∈ blocks := List.mem_of_getLast? hlast'
        rw [hs, networkMatches_eq_contains (h last hmem).1] at hx
        exact hlast last hlast' hx
      · rw [if_neg hwhole] at hs
        exact hwhole (honly block hblock ((IPBlock.exists_remainder_iff
          (h block hblock) (hmapped block hblock)).mp ⟨s, hs, hx⟩))

end Blocks

/-! ## The rules of all policies -/

section Policies

variable {lookupPod : LookupPod} {direction : MatchType}
  {policies : List ContivPolicy} {t : Traffic}

theorem exists_mem_candidateRules_iff :
    (∃ rule ∈ candidateRules lookupPod direction policies,
      rule.matchesTraffic t = true) ↔
      ∃ policy ∈ policies, ∃ m ∈ policy.matchesOf direction, m.l4Holds t = true ∧
          (m.matchesAnyPeer = true ∨ (∃ pod ∈ m.pods.getD [],
              podHasIP lookupPod (remoteIP direction t) pod = true) ∨
            ∃ s ∈ collectSubnets (m.ipBlocks.getD []),
              networkMatches s (remoteIP direction t) = true) := by
  have hmatch := fun (policyID : PolicyID) (m : Match) =>
    @exists_mem_matchRules_iff m t lookupPod direction policyID (remoteIP_valid t)
  constructor
  · rintro ⟨rule, hrule, hrt⟩
    obtain ⟨policy, hpolicy, m, hm, hrule⟩ := mem_candidateRules.mp hrule
    exact ⟨policy, hpolicy, m, hm, (hmatch _ _).mp ⟨rule, hrule, hrt⟩⟩
  · rintro ⟨policy, hpolicy, m, hm, h⟩
    obtain ⟨rule, hrule, hrt⟩ := (hmatch policy.id m).mpr h
    exact ⟨rule, mem_candidateRules.mpr ⟨policy, hpolicy, m, hm, hrule⟩, hrt⟩

theorem candidate_iff_permits (h : CanonicalNetworks policies)
    (hread : ∀ policy ∈ policies, ∀ m ∈ policy.matchesOf direction,
      WellRead (m.ipBlocks.getD [])) :
    (∃ rule ∈ candidateRules lookupPod direction policies,
      rule.matchesTraffic t = true) ↔
      permits lookupPod direction policies t = true := by
  rw [exists_mem_candidateRules_iff, permits_iff]
  refine exists_congr fun policy => and_congr_right fun hpolicy =>
    exists_congr fun m => and_congr_right fun hm => and_congr_right fun _ => ?_
  rw [l3Holds_iff, exists_mem_collectSubnets_iff (h.blocks hpolicy hm)
    (hread policy hpolicy m hm)]

theorem kept_iff_candidate (hns : ∀ policy ∈ policies, Slashless policy.id.ns)
    (hids : Unambiguous lookupPod direction policies) :
    KeptTraffic lookupPod direction policies t ↔
      ∃ rule ∈ candidateRules lookupPod direction policies,
        rule.matchesTraffic t = true := by
  refine exists_congr fun rule => and_congr_left fun _ => ?_
  exact first_iff_mem ((candidateRules_same_iff hns).mpr hids)

/-- All that could permit the traffic are blocks without loss, and the last
block of the match does not have its address. -/
structure Match.Misses (m : Match) (lookupPod : LookupPod) (ip : IP) : Prop where
  peers : ¬ m.matchesAnyPeer = true
  pods : ∀ pod ∈ m.pods.getD [], ¬ podHasIP lookupPod ip pod = true
  blocks : ∀ block ∈ m.ipBlocks.getD [], block.KeepsMapped ∧
    (block.holds ip = true → block.whole = true)
  last : ∀ last ∈ (m.ipBlocks.getD []).getLast?, ¬ last.network.contains ip = true

/-- Rules decide all traffic as the policies say, if no block is read as one
that does not stand for it, none leaves the mapped block, and identifiers are
unambiguous.  Permitted traffic that every match misses is denied. -/
theorem generateRules_decides (hlookup : lookupPod.Sound)
    (hnetworks : CanonicalNetworks policies)
    (hns : ∀ policy ∈ policies, Slashless policy.id.ns) :
    ((∀ policy ∈ policies, ∀ m ∈ policy.matchesOf direction,
        WellRead (m.ipBlocks.getD [])) →
      Unambiguous lookupPod direction policies →
      ∀ t, ∃ rules, generateRules lookupPod direction policies = some rules ∧
        testTraffic rules t = expectedAction lookupPod direction policies t) ∧
    ∀ t, permits lookupPod direction policies t = true →
      (∀ policy ∈ policies, ∀ m ∈ policy.matchesOf direction, m.l4Holds t = true →
          m.Misses lookupPod (remoteIP direction t)) →
      ∃ rules, generateRules lookupPod direction policies = some rules ∧
        testTraffic rules t ≠ expectedAction lookupPod direction policies t := by
  constructor
  · intro hread hids t
    refine ⟨_, generateRules_eq hlookup direction policies, ?_⟩
    rw [testTraffic_eq_expected_iff, kept_iff_candidate hns hids,
      candidate_iff_permits hnetworks hread]
  · intro t hpermits hmisses
    refine ⟨_, generateRules_eq hlookup direction policies, ?_⟩
    rw [ne_eq, testTraffic_eq_expected_iff, iff_true_right hpermits]
    rintro ⟨rule, hfirst, hmatch⟩
    obtain ⟨policy, hpolicy, m, hm, hl4, hl3⟩ :=
      exists_mem_candidateRules_iff.mp ⟨rule, hfirst.mem, hmatch⟩
    have hmiss := hmisses policy hpolicy m hm hl4
    rcases hl3 with hany | ⟨pod, hpod, hip⟩ | hsubnet
    · exact hmiss.peers hany
    · exact hmiss.pods pod hpod hip
    · exact not_exists_mem_collectSubnets (hnetworks.blocks hpolicy hm)
        (fun block hblock => (hmiss.blocks block hblock).1)
        (fun block hblock => (hmiss.blocks block hblock).2) hmiss.last
        hsubnet

end Policies

/-! ## Two blocks in one match -/

def unknownPods : LookupPod := fun _ => (false, none)

def twoBlocksPolicy : ContivPolicy where
  id := ⟨"two-blocks", "default"⟩
  type := .ingress
  matchList := [
    { type := .ingress
      pods := none
      ipBlocks := some [
        ⟨⟨[10, 0, 0, 0], [255, 0, 0, 0]⟩, []⟩,
        ⟨⟨[192, 168, 0, 0], [255, 255, 0, 0]⟩, []⟩]
      ports := [] }]

def fromFirstBlock : Traffic where
  srcIP := [10, 1, 1, 1]
  destIP := [10, 2, 2, 2]
  protocol := .tcp
  srcPort := 5000
  destPort := 80
  srcValid := webRequest.srcValid
  destValid := by decide
  destPort_ne_zero := webRequest.destPort_ne_zero

def nestedBlocksPolicy : ContivPolicy where
  id := ⟨"nested-blocks", "default"⟩
  type := .ingress
  matchList := [
    { type := .ingress
      pods := some [⟨"web", "prod"⟩]
      ipBlocks := some [
        ⟨⟨[10, 0, 0, 0], [255, 0, 0, 0]⟩,
          [⟨[10, 1, 0, 0], [255, 255, 0, 0]⟩]⟩,
        ⟨⟨[192, 168, 1, 0], [255, 255, 255, 0]⟩, []⟩,
        ⟨⟨[192, 168, 0, 0], [255, 255, 0, 0]⟩, []⟩]
      ports := [⟨.tcp, 80⟩] }]

theorem nestedBlocks_unambiguous :
    Unambiguous webPods .ingress [nestedBlocksPolicy] := by
  unfold Unambiguous
  decide +kernel

theorem generateRules_decides_nestedBlocks :
    ∃ rules, generateRules webPods .ingress [nestedBlocksPolicy] =
      some rules ∧ testTraffic rules fromProd =
        expectedAction webPods .ingress [nestedBlocksPolicy] fromProd :=
  (generateRules_decides webPods_sound (by decide) (by decide)).1
    (by decide +kernel) nestedBlocks_unambiguous fromProd

-- Both blocks end up as 192.168.0.0/16.
theorem generateRules_denies_first_block : CanonicalNetworks [twoBlocksPolicy] ∧
      (generateRules unknownPods .ingress [twoBlocksPolicy]).map
        (testTraffic · fromFirstBlock) = some .denied ∧
      expectedAction unknownPods .ingress [twoBlocksPolicy] fromFirstBlock =
        .allowed := by
  decide

end ContivVPP.Configurator
