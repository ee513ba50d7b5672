import ContivVPP.ConfiguratorTxnVerdict
import ContivVPP.PartialLoops

/-!
# Pods without data

The configurator relies on the contract of `LookupPod`, that a pod which is
found has data.  Where the contract is broken, missing data are dereferenced as
soon as such a pod is configured, or is a peer in the policies of a pod that is
rendered.
-/

namespace ContivVPP.Configurator

open GoMap Net K8s Renderer PartialLoops

/-! ## The contract of the lookup -/

def LookupPod.Missing (lookupPod : LookupPod) (pod : PodID) : Prop :=
  lookupPod pod = (true, none)

/-- The lookup with its contract kept: a pod without data is not found. -/
def LookupPod.honest (lookupPod : LookupPod) : LookupPod := fun pod =>
  match lookupPod pod with
  | (true, none) => (false, none)
  | result => result

section Lookup

variable {lookupPod : LookupPod} {pod : PodID}

theorem LookupPod.honest_of_not_missing (h : ¬ lookupPod.Missing pod) :
    lookupPod.honest pod = lookupPod pod := by
  unfold LookupPod.honest
  split
  · next hlookup => exact absurd hlookup h
  · rfl

theorem LookupPod.honest_sound (lookupPod : LookupPod) :
    lookupPod.honest.Sound := by
  intro pod hfound
  unfold LookupPod.honest at hfound ⊢
  split at hfound
  · cases hfound
  · next hmissing =>
      rcases hlookup : lookupPod pod with ⟨found, data⟩
      rw [hlookup] at hfound
      cases data with
      | none =>
          obtain rfl : found = true := hfound
          exact absurd hlookup hmissing
      | some data => simp_all

end Lookup

/-! ## Peers of the policies -/

/-- The pods that are looked up when rules are generated. -/
def peersOf (direction : MatchType) (policies : List ContivPolicy) : List PodID :=
  policies.flatMap fun policy =>
    (policy.matchesOf direction).flatMap fun m => m.pods.getD []

section Peers

variable {lookupPod lookupPod' : LookupPod} {direction : MatchType}
  {policies : List ContivPolicy}

theorem mem_peersOf {peer : PodID} : peer ∈ peersOf direction policies ↔
    ∃ policy ∈ policies, policy.applies direction = true ∧
      ∃ m ∈ policy.matchList, m.type = direction ∧ peer ∈ m.pods.getD [] := by
  simp only [peersOf, List.mem_flatMap, mem_matchesOf, and_assoc, exists_and_left]

theorem collectPeers_congr {pods : List PodID}
    (h : ∀ pod ∈ pods, lookupPod pod = lookupPod' pod) :
    collectPeers lookupPod pods = collectPeers lookupPod' pods := by
  induction pods with
  | nil => rfl
  | cons pod pods ih =>
      rw [List.forall_mem_cons] at h
      rw [collectPeers, collectPeers, h.1, ih h.2]

theorem not_missing_of_collectPeers {pods : List PodID}
    {peers : List PeerPod} (h : collectPeers lookupPod pods = some peers) :
    ∀ pod ∈ pods, ¬ lookupPod.Missing pod := by
  induction pods generalizing peers with
  | nil => simp
  | cons pod pods ih =>
      have hrest : ∃ rest, collectPeers lookupPod pods = some rest ∧
          ¬ lookupPod.Missing pod := by
        rw [collectPeers] at h
        unfold LookupPod.Missing
        split at h
        · next hlookup => exact ⟨_, h, by simp [hlookup]⟩
        · cases h
        · next data hlookup =>
            have hfound : lookupPod pod ≠ (true, none) := by simp [hlookup]
            split_ifs at h
            · exact ⟨_, h, hfound⟩
            · split at h
              · exact ⟨_, h, hfound⟩
              · obtain ⟨rest, hrest, _⟩ := Option.map_eq_some_iff.mp h
                exact ⟨rest, hrest, hfound⟩
      obtain ⟨rest, hrest, hpod⟩ := hrest
      exact List.forall_mem_cons.mpr ⟨hpod, ih hrest⟩

theorem generateRules_congr (h : ∀ peer ∈ peersOf direction policies,
      lookupPod peer = lookupPod' peer) :
    generateRules lookupPod direction policies =
      generateRules lookupPod' direction policies := by
  have hpolicies : policies.foldlM (generatePolicy lookupPod direction)
      ⟨[], false, false⟩ =
      policies.foldlM (generatePolicy lookupPod' direction)
        ⟨[], false, false⟩ := by
    refine foldlM_congr (fun s policy hpolicy => ?_) _
    unfold generatePolicy
    split_ifs with happlies
    · refine foldlM_congr (fun s m hm => ?_) _
      unfold generateMatch
      split_ifs with htype
      · rfl
      · rw [collectPeers_congr fun peer hpeer => h peer
          (mem_peersOf.mpr ⟨policy, hpolicy, happlies, m, hm,
            not_not.mp htype, hpeer⟩)]
    · rfl
  rw [generateRules, generateRules, hpolicies]

theorem not_missing_of_generateRules {rules : List ContivRule}
    (h : generateRules lookupPod direction policies = some rules) :
    ∀ peer ∈ peersOf direction policies, ¬ lookupPod.Missing peer := by
  intro peer hpeer
  obtain ⟨policy, hpolicy, happlies, m, hm, htype, hpods⟩ :=
    mem_peersOf.mp hpeer
  simp only [generateRules, bind_eq_some_iff] at h
  obtain ⟨s, hs, _⟩ := h
  obtain ⟨t, t', hpolicyStep⟩ := exists_step_of_foldlM hs hpolicy
  rw [generatePolicy, if_pos happlies] at hpolicyStep
  obtain ⟨u, u', hmatch⟩ := exists_step_of_foldlM hpolicyStep hm
  rw [generateMatch, if_neg (not_not.mpr htype), bind_eq_some_iff] at hmatch
  obtain ⟨peers, hpeers, _⟩ := hmatch
  exact not_missing_of_collectPeers hpeers peer hpods

theorem generateRules_honest
    (h : ∀ peer ∈ peersOf direction policies, ¬ lookupPod.Missing peer) :
    generateRules lookupPod direction policies =
      generateRules lookupPod.honest direction policies :=
  generateRules_congr fun peer hpeer =>
    (LookupPod.honest_of_not_missing (h peer hpeer)).symm

def LookupPod.knows (lookupPod : LookupPod) (pod : PodID) : Bool :=
  (lookupPod pod).1 && (lookupPod pod).2.isSome

def Match.known (lookupPod : LookupPod) (m : Match) : Match :=
  { m with pods := m.pods.map (·.filter lookupPod.knows) }

def ContivPolicy.known (lookupPod : LookupPod) (policy : ContivPolicy) :
    ContivPolicy :=
  { policy with matchList := policy.matchList.map (·.known lookupPod) }

theorem collectPeers_known {pods : List PodID}
    (h : ∀ pod ∈ pods, ¬ lookupPod.Missing pod) :
    collectPeers lookupPod (pods.filter lookupPod.knows) =
      collectPeers lookupPod pods := by
  induction pods with
  | nil => rfl
  | cons pod pods ih =>
      rw [List.forall_mem_cons] at h
      rcases hlookup : lookupPod pod with ⟨found, data⟩
      cases found with
      | false => simp [LookupPod.knows, hlookup, collectPeers, ih h.2]
      | true =>
          cases data with
          | none => exact absurd hlookup h.1
          | some data =>
              simp [LookupPod.knows, hlookup, collectPeers, ih h.2]

theorem generateMatch_known {id : PolicyID} {s : GenState} {m : Match}
    (h : m.type = direction → ∀ peer ∈ m.pods.getD [], ¬ lookupPod.Missing peer) :
    generateMatch lookupPod direction id s (m.known lookupPod) =
      generateMatch lookupPod direction id s m := by
  unfold generateMatch
  by_cases htype : m.type = direction
  · have hpods : (m.known lookupPod).pods.getD [] =
        (m.pods.getD []).filter lookupPod.knows := by
      cases hm : m.pods <;> simp [Match.known, hm]
    have hany : (m.known lookupPod).matchesAnyPeer = m.matchesAnyPeer := by
      cases hm : m.pods <;> simp [Match.matchesAnyPeer, Match.known, hm]
    rw [hpods, collectPeers_known (h htype), hany]
    simp only [matchRules, hany]
    rfl
  · rw [if_pos htype]
    exact if_pos htype

theorem generateRules_known
    (h : ∀ peer ∈ peersOf direction policies, ¬ lookupPod.Missing peer) :
    generateRules lookupPod direction (policies.map (·.known lookupPod)) =
      generateRules lookupPod direction policies := by
  rw [generateRules, generateRules, List.foldlM_map]
  congr 1
  refine foldlM_congr (fun s policy hpolicy => ?_) _
  change (if policy.applies direction = true then _ else _) =
    (if policy.applies direction = true then _ else _)
  split_ifs with happlies
  · rw [ContivPolicy.known, List.foldlM_map]
    refine foldlM_congr (fun s m hm => generateMatch_known ?_) _
    intro htype peer hpeer
    exact h peer (mem_peersOf.mpr ⟨policy, hpolicy, happlies, m, hm, htype,
      hpeer⟩)
  · rfl

end Peers

/-! ## Commits -/

structure EntryKnown (lookupPod : LookupPod) (pod : PodID)
    (policies : List ContivPolicy) : Prop where
  known : ¬ lookupPod.Missing pod
  peers : Renderable lookupPod pod → ∀ direction,
    ∀ peer ∈ peersOf direction policies, ¬ lookupPod.Missing peer

section Commit

variable {lookupPod : LookupPod} {sort : PolicySort} {s : CommitState}
  {pod : PodID} {policies : List ContivPolicy}

theorem mem_peersOf_sort {direction : MatchType} {peer : PodID} :
    peer ∈ peersOf direction (sort.sort policies) ↔
      peer ∈ peersOf direction policies := by
  simp only [mem_peersOf, (sort.perm policies).mem_iff]

theorem processPolicies_honest
    (h : ∀ direction, ∀ peer ∈ peersOf direction policies,
      ¬ lookupPod.Missing peer) :
    processPolicies lookupPod policies =
      processPolicies lookupPod.honest policies := by
  unfold processPolicies
  rw [generateRules_honest (h .ingress), generateRules_honest (h .egress)]

theorem commitPod_honest (h : EntryKnown lookupPod pod policies) :
    commitPod lookupPod sort s (pod, policies) =
      commitPod lookupPod.honest sort s (pod, policies) := by
  have hhonest := LookupPod.honest_of_not_missing h.known
  rcases hlookup : lookupPod pod with ⟨found, data⟩
  rw [hlookup] at hhonest
  cases found with
  | false => simp only [commitPod, hlookup, hhonest]
  | true =>
      cases data with
      | none => exact absurd hlookup h.known
      | some data =>
          simp only [commitPod, hlookup, hhonest]
          split_ifs with hip
          · rfl
          · cases hnet : getOneHostSubnet data.ipAddress with
            | none => rfl
            | some podIPNet =>
                have hpod : Renderable lookupPod pod := by
                  simp [Renderable, knownPeer, hlookup, hip, hnet]
                have hset : processPolicies lookupPod (sort.sort policies) =
                    processPolicies lookupPod.honest (sort.sort policies) :=
                  processPolicies_honest fun direction peer hpeer =>
                    h.peers hpod direction peer (mem_peersOf_sort.mp hpeer)
                simp only [hset]

/-- A round of the loop with an unknown pod dereferences missing data, and the
first one with an unknown peer does. -/
theorem entryKnown_of_commitPod {s' : CommitState}
    (h : commitPod lookupPod sort ⟨[], []⟩ (pod, policies) = some s') :
    EntryKnown lookupPod pod policies := by
  constructor
  · intro hmissing
    unfold commitPod at h
    rw [hmissing] at h
    cases h
  · intro hpod direction
    cases commitsPod h with
    | skip hskip =>
        rw [Renderable, hskip] at hpod
        cases hpod
    | render peer set _ _ hset => cases hset
    | process peer set _ hset =>
        simp only [processPolicies, bind_eq_some_iff] at hset
        obtain ⟨egress, hegress, ingress, hingress, _⟩ := hset
        intro peer hpeer
        have hpeer : peer ∈ peersOf direction (sort.sort policies) :=
          mem_peersOf_sort.mpr hpeer
        cases direction with
        | ingress => exact not_missing_of_generateRules hegress peer hpeer
        | egress => exact not_missing_of_generateRules hingress peer hpeer

theorem commit_honest {config : AList fun _ : PodID => List ContivPolicy}
    (h : ∀ pod policies, config.lookup pod = some policies →
      EntryKnown lookupPod pod policies) (choices : CommitChoices)
    (parallelRendering resync : Bool) (contents : List Content) :
    commit choices lookupPod parallelRendering resync config contents =
      commit choices lookupPod.honest parallelRendering resync config
        contents := by
  have hloop : (range choices.podOrder config).foldlM
      (commitPod lookupPod choices.sort) ⟨[], []⟩ =
      (range choices.podOrder config).foldlM
        (commitPod lookupPod.honest choices.sort) ⟨[], []⟩ := by
    refine foldlM_congr (fun s entry hentry => ?_) _
    exact commitPod_honest (h entry.1 entry.2 (mem_range.mp hentry))
  rw [commit, commit, hloop]

/-- The calls of `Render` as if pods that are not known were absent.  The
configured pods with a valid address are rendered, each once, with the rules of
policies that have the IDs of its own and were configured for such a pod; the
peers that are not known are left out. -/
structure RendersKnown (lookupPod : LookupPod) (sort : PolicySort)
    (config : AList fun _ : PodID => List ContivPolicy)
    (renders : List (PodID × Rendered)) : Prop where
  nodup : (renders.map Prod.fst).Nodup
  pods : ∀ pod, pod ∈ renders.map Prod.fst ↔
    ConfiguredRenderable lookupPod config pod
  rules : ∀ r ∈ renders, (∃ peer, knownPeer lookupPod r.1 = some peer ∧
      r.2.podIP = peer.ipNet) ∧
    ∃ policies, config.lookup r.1 = some policies ∧
    ∃ pod' policies', config.lookup pod' = some policies' ∧
      Renderable lookupPod pod' ∧
      policiesEqual (sort.sort policies') (sort.sort policies) = true ∧
      generateRules lookupPod .egress
        ((sort.sort policies').map (·.known lookupPod)) =
        some r.2.ingress ∧
      generateRules lookupPod .ingress
        ((sort.sort policies').map (·.known lookupPod)) = some r.2.egress

theorem rendersKnown {choices : CommitChoices}
    {config : AList fun _ : PodID => List ContivPolicy}
    (h : Collected lookupPod choices.sort (range choices.podOrder config)
      s) : RendersKnown lookupPod choices.sort config s.renders := by
  refine ⟨nodup_renders h, fun pod => mem_renders h, fun r hr => ?_⟩
  obtain ⟨entry, hentry, hpod, peer, hpeer, hip, set, hvalid,
    ⟨entry', hentry', hknown, hset⟩, hequal, hin, hout⟩ := h.rules r hr
  refine ⟨⟨peer, hpeer, hip⟩, entry.2, hpod ▸ mem_range.mp hentry, entry'.1,
    entry'.2, mem_range.mp hentry', hknown, hset ▸ hequal, ?_⟩
  simp only [ProcessedPolicySet.Valid, processPolicies, bind_eq_some_iff,
    pure_eq_some_iff] at hvalid
  obtain ⟨egress, hegress, ingress, hingress, heq⟩ := hvalid
  rw [hin, hout, ← hset, ← heq]
  exact ⟨(generateRules_known (not_missing_of_generateRules hingress)).trans
      hingress,
    (generateRules_known (not_missing_of_generateRules hegress)).trans hegress⟩

/-- A commit comes to its end and renders as if pods that are not known were
absent. -/
def SkipsUnknown (choices : CommitChoices) (lookupPod : LookupPod)
    (parallelRendering resync : Bool)
    (config : AList fun _ : PodID => List ContivPolicy)
    (contents : List Content) : Prop :=
  ∃ res renders,
    commit choices lookupPod parallelRendering resync config contents = some res ∧
    RendersKnown lookupPod choices.sort config renders ∧
    (renders = [] ∧ res = ⟨contents, none⟩ ∨
      renders ≠ [] ∧ CommitsAll choices contents ⟨resync, renders⟩ res)

/-- Whatever order the loop takes, pods that are not known are left out just if
the configured pods and the peers that matter have data. -/
theorem commit_skipsUnknown_iff (lookupPod : LookupPod)
    (config : AList fun _ : PodID => List ContivPolicy) :
    (∀ choices parallelRendering resync contents,
      SkipsUnknown choices lookupPod parallelRendering resync config contents) ↔
    ∀ pod policies, config.lookup pod = some policies →
      EntryKnown lookupPod pod policies := by
  constructor
  · intro h pod policies hlookup
    -- The pod comes first, so that no rules can be taken over.
    obtain ⟨res, _, hres, _⟩ := h
      ⟨.startingWith (pod, policies), .merge, fun _ => none, .insertion⟩
      false false []
    rw [commit, bind_eq_some_iff] at hres
    obtain ⟨s, hs, _⟩ := hres
    obtain ⟨rest, hrest⟩ := range_startingWith hlookup
    rw [hrest, List.foldlM_cons, bind_eq_some_iff] at hs
    obtain ⟨s', hs', _⟩ := hs
    exact entryKnown_of_commitPod hs'
  · intro h choices parallelRendering resync contents
    have hcommit : ∃ res, commit choices lookupPod parallelRendering resync
        config contents = some res := by
      rw [commit_honest h]
      exact exists_commit lookupPod.honest_sound
    obtain ⟨res, hres⟩ := hcommit
    obtain ⟨s, hs, hcases⟩ := commit_cases hres
    exact ⟨res, s.renders, hres, rendersKnown hs, hcases⟩

end Commit

end ContivVPP.Configurator
