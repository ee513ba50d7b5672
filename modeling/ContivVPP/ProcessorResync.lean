import Mathlib.Data.List.ReduceOption
import ContivVPP.PolicyProcessor

/-!
# Resync of the policy processor

A resync configures all pods of the cache, but in a transaction that does not
replace what the renderers hold.  So pods that have left the cache keep their
rules.
-/

namespace ContivVPP.Processor

open GoMap K8s Net Renderer Configurator PolicyCache PartialLoops KeyedAppend

variable {pod : PodID} {api : PolicyCacheAPI}

section Process

variable {o : RangeOrder String} {p : RangeOrder (String × Policy)} {c : Cache}

theorem mem_processPod {policies : List ContivPolicy}
    (h : processPod (.of o p c) pod = some policies) {cp : ContivPolicy}
    (hcp : cp ∈ policies) :
    ∃ id policy, c.configuredPolicies.lookup id = some policy ∧
      processData (.of o p c) policy = some cp ∧ cp.id = policy.id := by
  simp only [processPod, bind_eq_some_iff, pure_eq_some_iff] at h
  obtain ⟨ids, _, found, hfound, rfl⟩ := h
  rw [List.reduceOption_mem_iff, mem_mapM_iff hfound] at hcp
  obtain ⟨id, _, hid⟩ := hcp
  cases hlookup : c.configuredPolicies.lookup id.string with
  | none => simp [processPolicy, PolicyCacheAPI.of, lookupPolicy, hlookup] at hid
  | some policy =>
      have hdata : processData (.of o p c) policy = some cp := by
        simpa [processPolicy, PolicyCacheAPI.of, lookupPolicy, hlookup] using hid
      exact ⟨id.string, policy, hlookup, hdata, id_of_processData hdata⟩

theorem mem_processData {policy : Policy} {cp : ContivPolicy}
    (h : processData api policy = some cp) {m : Match}
    (hm : m ∈ cp.matchList) :
    ∃ rule ∈ policy.ingressRule ++ policy.egressRule, ∃ type,
      calculateMatch api policy.ns type rule = some m := by
  simp only [processData, calculateMatches, bind_eq_some_iff,
    pure_eq_some_iff] at h
  obtain ⟨_, ⟨ingress, hingress, egress, hegress, rfl⟩, rfl⟩ := h
  rcases List.mem_append.mp hm with hm | hm
  · obtain ⟨rule, hrule, hmatch⟩ := (mem_mapM_iff hingress).mp hm
    exact ⟨rule, List.mem_append_left _ hrule, .ingress, hmatch⟩
  · obtain ⟨rule, hrule, hmatch⟩ := (mem_mapM_iff hegress).mp hm
    exact ⟨rule, List.mem_append_right _ hrule, .egress, hmatch⟩

theorem mem_pods_calculateMatch {ns : String} {type : MatchType} {rule : Rule}
    {m : Match} (h : calculateMatch api ns type rule = some m) {id : PodID}
    (hid : id ∈ m.pods.getD []) :
    ∃ peer ∈ rule.peer, ∃ ids,
      api.lookupPodsByNSLabelSelector ns peer.pods = some ids ∧ id ∈ ids := by
  simp only [calculateMatch, bind_eq_some_iff, pure_eq_some_iff] at h
  obtain ⟨peers, hpeers, ports, _, rfl⟩ := h
  split_ifs at hid with hnil
  · cases hid
  · obtain ⟨entry, hentry, hmem⟩ := List.mem_flatMap.mp hid
    obtain ⟨peer, hpeer, heq⟩ := (mem_mapM_iff hpeers).mp hentry
    simp only [calculatePeer, bind_eq_some_iff] at heq
    obtain ⟨ids, hids, heq⟩ := heq
    refine ⟨peer, hpeer, ids, hids, ?_⟩
    cases hblock : peer.ipBlock with
    | none =>
        rw [hblock] at heq
        cases heq
        exact hmem
    | some block =>
        rw [hblock] at heq
        simp only [bind_eq_some_iff, pure_eq_some_iff] at heq
        obtain ⟨_, _, rfl⟩ := heq
        exact hmem

theorem processPod_unique (hpolicies : c.PoliciesRegistered) {pod' : PodID}
    {policies policies' : List ContivPolicy}
    (h : processPod (.of o p c) pod = some policies)
    (h' : processPod (.of o p c) pod' = some policies') {cp cp' : ContivPolicy}
    (hcp : cp ∈ policies) (hcp' : cp' ∈ policies') (hid : cp.id = cp'.id) :
    cp = cp' := by
  obtain ⟨id, policy, hlookup, hdata, hcpId⟩ := mem_processPod h hcp
  obtain ⟨id', policy', hlookup', hdata', hcpId'⟩ := mem_processPod h' hcp'
  have hsame : policy = policy' := by
    rw [(hpolicies id policy hlookup).1] at hlookup
    rw [(hpolicies id' policy' hlookup').1, ← hcpId', ← hid, hcpId,
      hlookup] at hlookup'
    exact Option.some.inj hlookup'
  rw [← hsame, hdata, Option.some.injEq] at hdata'
  exact hdata'

end Process

/-! ## The configured pods -/

theorem lookup_configure {calls : List (PodID × List ContivPolicy)} :
    (∀ policies, (configure calls).lookup pod = some policies →
      (pod, policies) ∈ calls) ∧
    (pod ∈ configure calls ↔ ∃ policies, (pod, policies) ∈ calls) := by
  induction calls using List.reverseRecOn with
  | nil => simp [configure]
  | append_singleton calls call ih =>
      have hstep : configure (calls ++ [call]) =
          (configure calls).insert call.1 call.2 := by
        simp [configure]
      rw [hstep]
      constructor
      · intro policies hlookup
        rcases lookup_insert_eq_some hlookup with ⟨rfl, rfl⟩ | ⟨_, hold⟩
        · simp
        · exact List.mem_append_left _ (ih.1 policies hold)
      · rw [AList.mem_insert, ih.2]
        simp only [List.mem_append, List.mem_singleton, exists_or]
        rw [or_comm]
        refine or_congr_right ⟨fun heq => ⟨call.2, by rw [heq]⟩, ?_⟩
        intro hex
        obtain ⟨policies, heq⟩ := hex
        rw [← heq]

/-- The pod is in the cache and has a valid address. -/
def InCache (c : Cache) (pod : PodID) : Prop :=
  ∃ data, c.configuredPods.lookup pod.string = some data ∧
    (parseIP data.ipAddress).isSome = true

theorem renderable_iff {c : Cache} :
    Renderable (lookupPod c) pod ↔ InCache c pod := by
  rw [Renderable, knownPeer, lookupPod, InCache]
  cases hlookup : c.configuredPods.lookup pod.string with
  | none => simp
  | some data =>
      have hempty : parseIP "" = none := by decide
      have hsubnet : (getOneHostSubnet data.ipAddress).isSome = true ↔
          (parseIP data.ipAddress).isSome = true := by
        rw [getOneHostSubnet]
        cases parseIP data.ipAddress with
        | none => simp
        | some ip =>
            change (if _ then _ else _ : Option IPNet).isSome = true ↔ _
            split_ifs <;> simp
      by_cases hip : data.ipAddress = ""
      · simp [hip, hempty]
      · simp [hip, hsubnet]

/-- What a renderer should hold for a pod: its address and the rules of its
current policies. -/
def CurrentRules (api : PolicyCacheAPI) (sort : PolicySort) (pod : PodID)
    (r : Rendered) : Prop :=
  ∃ peer policies set, knownPeer api.lookupPod pod = some peer ∧
    processPod api pod = some policies ∧
    processPolicies api.lookupPod (sort.sort policies) = some set ∧
    r = ⟨peer.ipNet, set.ingress, set.egress⟩

/-- The renderers hold the rules of the pods in the cache, and nothing
else. -/
def HoldCurrent (api : PolicyCacheAPI) (sort : PolicySort)
    (contents : List Content) : Prop :=
  ∀ content ∈ contents, ∀ pod r, content pod = some r ↔
    CurrentRules api sort pod r

section Resync

variable {o : RangeOrder String} {p : RangeOrder (String × Policy)}
  {c : Cache} {choices : CommitChoices} {parallelRendering : Bool}
  {contents : List Content} {res : Committed}

structure ConfiguresAll (o : RangeOrder String)
    (p : RangeOrder (String × Policy)) (c : Cache)
    (config : AList fun _ : PodID => List ContivPolicy) : Prop where
  policies : ∀ pod policies, config.lookup pod = some policies →
    processPod (.of o p c) pod = some policies
  mem_iff : ∀ pod, ConfiguredRenderable (lookupPod c) config pod ↔ InCache c pod

theorem configuresAll_of_resync (hpods : c.PodsRegistered)
    (h : resync (.of o p c) choices parallelRendering contents = some res) :
    ∃ config, ConfiguresAll o p c config ∧
      commit choices (lookupPod c) parallelRendering false config contents =
        some res := by
  obtain ⟨ids, hids, _, hmem⟩ := listAllPods_spec o hpods
  have hlist : (PolicyCacheAPI.of o p c).listAllPods = some ids := hids
  simp only [resync, process, hlist, Option.bind_eq_bind, Option.bind_some,
    Option.bind_eq_some_iff] at h
  obtain ⟨calls, hcalls, hcommit⟩ := h
  refine ⟨configure calls, ⟨?_, ?_⟩, hcommit⟩
  · intro pod policies hlookup
    have hcall := lookup_configure.1 policies hlookup
    rw [mem_mapM_iff hcalls] at hcall
    obtain ⟨pod', _, heq⟩ := hcall
    rw [Option.map_eq_some_iff] at heq
    obtain ⟨policies', hprocess, heq⟩ := heq
    obtain ⟨rfl, rfl⟩ := Prod.mk.inj heq
    exact hprocess
  · intro pod
    rw [ConfiguredRenderable, renderable_iff]
    refine and_iff_right_of_imp fun hin => lookup_configure.2.mpr ?_
    obtain ⟨data, hlookup, _⟩ := hin
    obtain ⟨hstring, hvalid⟩ := hpods _ data hlookup
    have hdata := PodID.eq_of_string hvalid.ns hvalid.name hstring
    have hid : pod ∈ ids :=
      (hmem pod).mpr ⟨data, by rw [← hdata]; exact hlookup, hdata⟩
    obtain ⟨call, hcall, heq⟩ := exists_of_mapM hcalls hid
    rw [Option.map_eq_some_iff] at heq
    obtain ⟨policies, _, rfl⟩ := heq
    exact ⟨policies, hcall⟩

theorem ConfiguresAll.currentRules
    {config : AList fun _ : PodID => List ContivPolicy}
    (h : ConfiguresAll o p c config) (hpolicies : c.PoliciesRegistered)
    {s : CommitState} (hs : Collected (lookupPod c) choices.sort
      (range choices.podOrder config) s) {r : Rendered}
    (hr : (pod, r) ∈ s.renders) :
    CurrentRules (.of o p c) choices.sort pod r := by
  obtain ⟨entry, hentry, hpod, peer, hpeer, hip, set, hset,
    ⟨entry', hentry', _, hsorted⟩, hequal, hingress, hegress⟩ :=
    hs.rules (pod, r) hr
  have hpolicies₁ := h.policies _ _ (mem_range.mp hentry)
  have hpolicies₂ := h.policies _ _ (mem_range.mp hentry')
  -- Policies with the same identifiers are the same policies.
  have hsame : set.policies = choices.sort.sort entry.2 := by
    refine eq_of_map_eq (by simpa [policiesEqual] using hequal) ?_
    intro cp hcp cp' hcp' hid
    rw [hsorted, (choices.sort.perm _).mem_iff] at hcp
    rw [(choices.sort.perm _).mem_iff] at hcp'
    exact processPod_unique hpolicies hpolicies₂ hpolicies₁ hcp hcp' hid
  obtain ⟨pod', policies⟩ := entry
  obtain rfl : pod' = pod := hpod
  refine ⟨peer, policies, set, hpeer, hpolicies₁, ?_, ?_⟩
  · have hvalid := hset
    rw [ProcessedPolicySet.Valid, hsame] at hvalid
    exact hvalid
  · obtain ⟨podIP, ingress, egress⟩ := r
    exact Rendered.mk.injEq .. ▸ ⟨hip, hingress, hegress⟩

theorem CurrentRules.unique {sort : PolicySort} {r r' : Rendered}
    (h : CurrentRules api sort pod r) (h' : CurrentRules api sort pod r') :
    r = r' := by
  obtain ⟨peer, policies, set, hpeer, hpolicies, hset, rfl⟩ := h
  obtain ⟨peer', policies', set', hpeer', hpolicies', hset', rfl⟩ := h'
  obtain rfl := Option.some.inj (hpeer.symm.trans hpeer')
  obtain rfl := Option.some.inj (hpolicies.symm.trans hpolicies')
  obtain rfl := Option.some.inj (hset.symm.trans hset')
  rfl

structure Resynced (o : RangeOrder String) (p : RangeOrder (String × Policy))
    (c : Cache) (sort : PolicySort) (before after : Content) : Prop where
  current : ∀ pod, InCache c pod →
    ∃ r, after pod = some r ∧ CurrentRules (.of o p c) sort pod r
  kept : ∀ pod, ¬ InCache c pod → after pod = before pod

theorem resync_resynced (hpods : c.PodsRegistered)
    (hpolicies : c.PoliciesRegistered)
    (hres : resync (.of o p c) choices parallelRendering contents = some res)
    (hok : res.err = none) (i : ℕ) :
    ∃ after : Content → Content, res.contents[i]? = (contents[i]?).map after ∧
      ∀ before, Resynced o p c choices.sort before (after before) := by
  obtain ⟨config, hconfig, hcommit⟩ := configuresAll_of_resync hpods hres
  obtain ⟨s, hs, hcases⟩ := commit_cases hcommit
  rcases hcases with ⟨hempty, rfl⟩ | ⟨_, hall⟩
  · refine ⟨id, by simp, fun before => ⟨fun pod hpod => ?_, fun _ _ => rfl⟩⟩
    rw [← hconfig.mem_iff, ← mem_renders hs, hempty] at hpod
    cases hpod
  · refine ⟨_, hall.apply hok i, fun before => ⟨fun pod hpod => ?_,
      fun pod hpod => ?_⟩⟩
    · rw [← hconfig.mem_iff, ← mem_renders hs, List.mem_map] at hpod
      obtain ⟨⟨pod, r⟩, hr, rfl⟩ := hpod
      exact ⟨r, apply_of_mem hs hr before, hconfig.currentRules hpolicies hs hr⟩
    · rw [← hconfig.mem_iff] at hpod
      exact apply_of_notMem hs hpod before

theorem CurrentRules.inCache {sort : PolicySort} {r : Rendered}
    (h : CurrentRules (.of o p c) sort pod r) : InCache c pod := by
  obtain ⟨peer, _, _, hpeer, _⟩ := h
  rw [← renderable_iff, Renderable]
  change (knownPeer (PolicyCacheAPI.of o p c).lookupPod pod).isSome = true
  rw [hpeer]
  rfl

theorem Resynced.current_iff {sort : PolicySort} {before after : Content}
    (h : Resynced o p c sort before after) :
    (∀ pod r, after pod = some r ↔ CurrentRules (.of o p c) sort pod r) ↔
      ∀ pod, before pod ≠ none → InCache c pod := by
  constructor
  · intro hcurrent pod hpod
    by_contra hnot
    rw [← h.kept pod hnot, Option.ne_none_iff_exists'] at hpod
    obtain ⟨r, hr⟩ := hpod
    exact hnot ((hcurrent pod r).mp hr).inCache
  · intro hbefore pod r
    by_cases hpod : InCache c pod
    · obtain ⟨r', hr', hrules⟩ := h.current pod hpod
      rw [hr', Option.some.injEq]
      exact ⟨fun heq => heq ▸ hrules, fun hr => hrules.unique hr⟩
    · have hnone : after pod = none := by
        rw [h.kept pod hpod]
        exact not_not.mp (mt (hbefore pod) hpod)
      rw [hnone]
      constructor
      · intro heq
        cases heq
      · intro hr
        exact absurd hr.inCache hpod

/-- After a resync that succeeds the renderers hold the current rules and
nothing else just if all pods that they held before are in the cache with a
valid address. -/
theorem resync_current_iff (o : RangeOrder String)
    (p : RangeOrder (String × Policy)) (c : Cache)
    (hpods : c.PodsRegistered) (hpolicies : c.PoliciesRegistered)
    (choices : CommitChoices) (parallelRendering : Bool)
    (contents : List Content) (res : Committed)
    (hres : resync (.of o p c) choices parallelRendering contents = some res)
    (hok : res.err = none) :
    HoldCurrent (.of o p c) choices.sort res.contents ↔
      ∀ content ∈ contents, ∀ pod, content pod ≠ none → InCache c pod := by
  have hresynced := resync_resynced hpods hpolicies hres hok
  simp only [HoldCurrent, List.mem_iff_getElem?]
  constructor
  · intro hcurrent content hcontent
    obtain ⟨i, hi⟩ := hcontent
    obtain ⟨after, hafter, hspec⟩ := hresynced i
    rw [hi] at hafter
    exact (hspec content).current_iff.mp (hcurrent _ ⟨i, hafter⟩)
  · intro hbefore content hcontent
    obtain ⟨i, hi⟩ := hcontent
    obtain ⟨after, hafter, hspec⟩ := hresynced i
    rw [hi, eq_comm, Option.map_eq_some_iff] at hafter
    obtain ⟨before, hget, rfl⟩ := hafter
    exact (hspec before).current_iff.mpr (hbefore before ⟨i, hget⟩)

end Resync

/-! ## A pod that has left -/

theorem twoPods_noPolicies : twoPods.PoliciesRegistered := by
  intro id policy hlookup
  cases hlookup

theorem not_inCache_twoPods : ¬ InCache twoPods ⟨"web", "default"⟩ := by
  intro hin
  obtain ⟨data, hlookup, _⟩ := hin
  have hnone : twoPods.configuredPods.lookup "default/web" = none := by
    decide +kernel
  exact absurd (hnone.symm.trans hlookup) (by simp)

theorem resync_twoPods : ∃ res,
    resync (.of .insertion .insertion twoPods) .succeeding false
      [staleContent] = some res ∧ res.err = none := by
  have herr : (resync (.of .insertion .insertion twoPods) .succeeding false
      [staleContent]).map Committed.err = some none := by
    decide +kernel
  exact Option.map_eq_some_iff.mp herr

theorem resync_current_iff_twoPods : ∃ res,
    resync (.of .insertion .insertion twoPods) .succeeding false
        [staleContent] = some res ∧ res.err = none ∧
      (HoldCurrent (.of .insertion .insertion twoPods) .merge res.contents ↔
        ∀ content ∈ [staleContent], ∀ pod, content pod ≠ none →
          InCache twoPods pod) := by
  obtain ⟨res, hres, hok⟩ := resync_twoPods
  exact ⟨res, hres, hok, resync_current_iff .insertion .insertion twoPods
    twoPods_registered twoPods_noPolicies .succeeding false [staleContent]
    res hres hok⟩

/-- Pods with addresses are in the cache, but not the pod that the renderer
holds.  It keeps its rules. -/
theorem resync_keeps_staleContent : ∃ res,
    resync (.of .insertion .insertion twoPods) .succeeding false
        [staleContent] = some res ∧ res.err = none ∧
      ¬ InCache twoPods ⟨"web", "default"⟩ ∧
      ∃ content ∈ res.contents, content ⟨"web", "default"⟩ ≠ none := by
  obtain ⟨res, hres, hok⟩ := resync_twoPods
  obtain ⟨after, hafter, hspec⟩ :=
    resync_resynced twoPods_registered twoPods_noPolicies hres hok 0
  refine ⟨res, hres, hok, not_inCache_twoPods, after staleContent,
    List.mem_of_getElem? hafter, ?_⟩
  rw [(hspec staleContent).kept _ not_inCache_twoPods]
  exact Option.some_ne_none _

end ContivVPP.Processor
