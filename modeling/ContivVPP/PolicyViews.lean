import Mathlib.Data.List.ReduceOption
import ContivVPP.PolicyCacheContent
import ContivVPP.PolicyProcessor

/-!
# Contiv policies up to order

The policies of a pod and the pods of a match come in the order in which the
loops over the maps of the cache visit them.  Up to these orders they are
determined by the policies that the cache finds for the pod and the pods that
it finds for their peers, and so by the objects that the cache holds.
-/

namespace ContivVPP.K8s

structure Policy.Proper (policy : Policy) : Prop where
  valid : policy.Valid
  peers : ∀ rule ∈ policy.ingressRule ++ policy.egressRule,
    ∀ peer ∈ rule.peer, ∀ selector, peer.pods = some selector → selector.Valid

def Policy.PeerSelector (policy : Policy) (selector : LabelSelector) : Prop :=
  ∃ rule ∈ policy.ingressRule ++ policy.egressRule, ∃ peer ∈ rule.peer,
    peer.pods = some selector

end ContivVPP.K8s

namespace ContivVPP.PolicyCache

open K8s GoMap

/-! ## Caches with the same objects -/

structure Datastore.Proper (ds : Datastore) : Prop where
  pods : ∀ pod, ds.Holds (.pod pod) → pod.Valid
  policies : ∀ policy, ds.Holds (.policy policy) → policy.Proper

def Cache.Finds (c : Cache) (ns : String) (selector : LabelSelector)
    (id : PodID) : Prop :=
  ∃ pod, c.HasPod ns pod ∧ CodeSelects c ns selector pod ∧ id = pod.id

def Cache.FindsFor (c : Cache) (id : PodID) (policy : Policy) : Prop :=
  ∃ pod selector, c.HasPod policy.ns pod ∧ id = pod.id ∧
    c.HasPolicy policy.ns policy selector ∧ selector.matchLabel ≠ [] ∧
    CodeSelects c policy.ns selector pod

theorem Cache.FindsFor.lookup {c : Cache} {id : PodID} {policy : Policy}
    (h : c.FindsFor id policy) :
    c.configuredPolicies.lookup policy.id.string = some policy := by
  obtain ⟨_, _, _, _, hpolicy, _⟩ := h
  exact hpolicy.lookup

section Mirrored

variable {ds : Datastore} {c c' : Cache}

theorem Mirrored.podsRegistered (h : Mirrored ds c) (hds : ds.Proper) :
    c.PodsRegistered := by
  intro id pod hlookup
  obtain ⟨hid, hholds⟩ := (h.pods id pod).mp hlookup
  exact ⟨hid, hds.pods pod hholds⟩

theorem Mirrored.policiesRegistered (h : Mirrored ds c) (hds : ds.Proper) :
    c.PoliciesRegistered := by
  intro id policy hlookup
  obtain ⟨hid, hholds⟩ := (h.policies id policy).mp hlookup
  exact ⟨hid, (hds.policies policy hholds).valid⟩

section

variable (h : Mirrored ds c) (h' : Mirrored ds c')
include h h'

theorem Mirrored.lookup_pods (id : String) :
    c.configuredPods.lookup id = c'.configuredPods.lookup id := by
  ext pod
  exact (h.pods id pod).trans (h'.pods id pod).symm

theorem Mirrored.lookup_policies (id : String) :
    c.configuredPolicies.lookup id = c'.configuredPolicies.lookup id := by
  ext policy
  exact (h.policies id policy).trans (h'.policies id policy).symm

theorem Mirrored.hasPod_eq : c.HasPod = c'.HasPod := by
  funext ns pod
  rw [Cache.HasPod, Cache.HasPod, h.lookup_pods h']

theorem Mirrored.finds_congr {ns : String} {selector : LabelSelector}
    {id : PodID} :
    c.Finds ns selector id ↔ c'.Finds ns selector id := by
  simp only [Cache.Finds, h.hasPod_eq h', codeSelects_congr (h.hasPod_eq h')]

theorem Mirrored.findsFor_congr {id : PodID} {policy : Policy} :
    c.FindsFor id policy ↔ c'.FindsFor id policy := by
  have hpolicy : ∀ selector, c.HasPolicy policy.ns policy selector ↔
      c'.HasPolicy policy.ns policy selector := by
    intro selector
    have hlookup := h.lookup_policies h' policy.id.string
    constructor
    · exact fun hp => ⟨hlookup ▸ hp.lookup, hp.ns_eq, hp.pods⟩
    · exact fun hp => ⟨hlookup ▸ hp.lookup, hp.ns_eq, hp.pods⟩
  simp only [Cache.FindsFor, h.hasPod_eq h',
    codeSelects_congr (h.hasPod_eq h'), hpolicy]

end

end Mirrored

section Lookups

variable {c c' : Cache} (o o' : RangeOrder String)
  (p : RangeOrder (String × Policy))

theorem lookupPods_congr (hpods : c.PodsRegistered)
    (hpods' : c'.PodsRegistered) {ns : String} (hns : ValidName ns)
    {selector : Option LabelSelector}
    (hselector : ∀ s, selector = some s → s.Valid ∧
      ∀ id, c.Finds ns s id ↔ c'.Finds ns s id) :
    (lookupPodsByNSLabelSelector o c ns selector).map List.toFinset =
      (lookupPodsByNSLabelSelector o' c' ns selector).map List.toFinset := by
  cases selector with
  | none =>
      simp only [lookupPodsByNSLabelSelector, lookupPodsByNamespace_eq_nil hns]
  | some selector =>
      obtain ⟨hvalid, hsame⟩ := hselector selector rfl
      obtain ⟨ids, hids, _, hmem⟩ := lookupPodsByNSLabelSelector_spec
        (o := o) hpods hns hvalid
      obtain ⟨ids', hids', _, hmem'⟩ := lookupPodsByNSLabelSelector_spec
        (o := o') hpods' hns hvalid
      rw [hids, hids', Option.map_some, Option.map_some, Option.some.injEq]
      ext id
      rw [List.mem_toFinset, List.mem_toFinset, hmem, hmem']
      exact hsame id

theorem exists_lookupPolicies (hpods : c.PodsRegistered)
    (hpolicies : c.PoliciesRegistered) (pod : PodID) :
    ∃ ids, lookupPoliciesByPod o p c pod = some ids ∧
      ∀ id, id ∈ ids ↔ ∃ policy, c.FindsFor pod policy ∧ id = policy.id := by
  cases hlookup : c.configuredPods.lookup pod.string with
  | none =>
      refine ⟨[], by rw [lookupPoliciesByPod, hlookup], fun id => ?_⟩
      refine iff_of_false List.not_mem_nil ?_
      rintro ⟨_, ⟨data, _, hpod, rfl, _⟩, _⟩
      rw [hpod.1] at hlookup
      cases hlookup
  | some data =>
      obtain ⟨hstring, hvalid⟩ := hpods _ data hlookup
      obtain rfl := PodID.eq_of_string hvalid.ns hvalid.name hstring
      have hpod : c.HasPod data.ns data := ⟨hlookup, rfl⟩
      obtain ⟨ids, hids, _, hmem⟩ :=
        lookupPoliciesByPod_spec o p hpods hpolicies hpod
      refine ⟨ids, hids, fun id => (hmem id).trans ⟨?_, ?_⟩⟩
      · rintro ⟨policy, selector, hpolicy, rfl, hlabels, hcode⟩
        have hns := hpolicy.ns_eq
        exact ⟨policy, ⟨data, selector, hns ▸ hpod, rfl, hns ▸ hpolicy,
          hlabels, hns ▸ hcode⟩, rfl⟩
      · rintro ⟨policy, ⟨data', selector, hpod', hid, hpolicy, hlabels,
          hcode⟩, rfl⟩
        obtain rfl : data = data' := by
          have hlookup' := hpod'.1
          rw [← hid, hlookup] at hlookup'
          exact Option.some.inj hlookup'
        have hns := hpod'.2
        exact ⟨policy, selector, hns ▸ hpolicy, rfl, hlabels, hns ▸ hcode⟩

end Lookups

end ContivVPP.PolicyCache

namespace ContivVPP.Processor

open GoMap K8s Net Configurator PolicyCache PartialLoops

/-! ## Views -/

structure MatchView where
  type : MatchType
  pods : Option (Finset PodID)
  ipBlocks : Option (List Configurator.IPBlock)
  ports : List Configurator.Port
  deriving DecidableEq

structure PolicyView where
  id : PolicyID
  type : Configurator.PolicyType
  matchList : List MatchView
  deriving DecidableEq

def matchView (m : Match) : MatchView :=
  ⟨m.type, m.pods.map List.toFinset, m.ipBlocks, m.ports⟩

def policyView (policy : ContivPolicy) : PolicyView :=
  ⟨policy.id, policy.type, policy.matchList.map matchView⟩

def views (policies : List ContivPolicy) : Finset PolicyView :=
  (policies.map policyView).toFinset

variable {policies : List ContivPolicy}

theorem mem_views {view : PolicyView} :
    view ∈ views policies ↔ ∃ policy ∈ policies, policyView policy = view := by
  rw [views, List.mem_toFinset, List.mem_map]

/-! ## Processing is determined up to order -/

section Congr

variable {c c' : Cache} (o o' : RangeOrder String)
  (p p' : RangeOrder (String × Policy))

def peerView (peer : List PodID × Option Configurator.IPBlock) :
    Finset PodID × Option Configurator.IPBlock :=
  (peer.1.toFinset, peer.2)

theorem calculatePeer_congr (hpods : c.PodsRegistered)
    (hpods' : c'.PodsRegistered) {ns : String} (hns : ValidName ns)
    {peer : Peer} (hpeer : ∀ s, peer.pods = some s → s.Valid ∧
      ∀ id, c.Finds ns s id ↔ c'.Finds ns s id) :
    (calculatePeer (.of o p c) ns peer).map peerView =
      (calculatePeer (.of o' p' c') ns peer).map peerView := by
  have hfound : ((PolicyCacheAPI.of o p c).lookupPodsByNSLabelSelector ns
      peer.pods).map List.toFinset =
      ((PolicyCacheAPI.of o' p' c').lookupPodsByNSLabelSelector ns
        peer.pods).map List.toFinset :=
    lookupPods_congr o o' hpods hpods' hns hpeer
  unfold calculatePeer
  rcases map_eq_map_cases hfound with
    ⟨hids, hids'⟩ | ⟨ids, ids', hids, hids', hview⟩
  · simp [hids, hids']
  · rw [hids, hids']
    cases peer.ipBlock with
    | none => simp [peerView, hview]
    | some block =>
        cases hblock : calculateIPBlock block with
        | none => simp [hblock]
        | some block => simp [hblock, peerView, hview]

theorem mem_flatMap_fst {peers : List (List PodID ×
      Option Configurator.IPBlock)} {id : PodID} :
    id ∈ peers.flatMap Prod.fst ↔ ∃ view ∈ peers.map peerView, id ∈ view.1 := by
  simp only [List.mem_flatMap, List.mem_map, exists_exists_and_eq_and,
    peerView, List.mem_toFinset]

theorem filterMap_snd {peers : List (List PodID × Option Configurator.IPBlock)} :
    peers.filterMap Prod.snd = (peers.map peerView).filterMap Prod.snd := by
  rw [List.filterMap_map]
  rfl

theorem calculateMatch_congr (hpods : c.PodsRegistered)
    (hpods' : c'.PodsRegistered) {ns : String} (hns : ValidName ns)
    (type : MatchType) {rule : Rule}
    (hrule : ∀ peer ∈ rule.peer, ∀ s, peer.pods = some s → s.Valid ∧
      ∀ id, c.Finds ns s id ↔ c'.Finds ns s id) :
    (calculateMatch (.of o p c) ns type rule).map matchView =
      (calculateMatch (.of o' p' c') ns type rule).map matchView := by
  have hpeers := mapM_view_congr fun peer hpeer =>
    calculatePeer_congr o o' p p' hpods hpods' hns (hrule peer hpeer)
  unfold calculateMatch
  rcases map_eq_map_cases hpeers with
    ⟨hnone, hnone'⟩ | ⟨peers, peers', hsome, hsome', hview⟩
  · simp [hnone, hnone']
  · have hpods : (peers.flatMap Prod.fst).toFinset =
        (peers'.flatMap Prod.fst).toFinset := by
      ext id
      rw [List.mem_toFinset, List.mem_toFinset, mem_flatMap_fst,
        mem_flatMap_fst, hview]
    have hblocks : peers.filterMap Prod.snd = peers'.filterMap Prod.snd := by
      rw [filterMap_snd, filterMap_snd, hview]
    rw [hsome, hsome']
    cases rule.port.mapM calculatePort with
    | none => rfl
    | some ports =>
        simp only [Option.bind_eq_bind, Option.bind_some, Option.pure_def,
          Option.map_some, Option.some.injEq]
        split_ifs
        · rfl
        · simp only [matchView, Option.map_some, hpods, hblocks]

theorem processData_congr (hpods : c.PodsRegistered)
    (hpods' : c'.PodsRegistered) {policy : Policy} (hpolicy : policy.Proper)
    (hpeers : ∀ s, policy.PeerSelector s →
      ∀ id, c.Finds policy.ns s id ↔ c'.Finds policy.ns s id) :
    (processData (.of o p c) policy).map policyView =
      (processData (.of o' p' c') policy).map policyView := by
  have hrules : ∀ type, ∀ rules ⊆ policy.ingressRule ++ policy.egressRule,
      (rules.mapM (calculateMatch (.of o p c) policy.ns type)).map
          (List.map matchView) =
        (rules.mapM (calculateMatch (.of o' p' c') policy.ns type)).map
          (List.map matchView) := by
    intro type rules hsub
    exact mapM_view_congr fun rule hrule =>
      calculateMatch_congr o o' p p' hpods hpods' hpolicy.valid.ns type
        fun peer hpeer s hs =>
          ⟨hpolicy.peers rule (hsub hrule) peer hpeer s hs,
            hpeers s ⟨rule, hsub hrule, peer, hpeer, hs⟩⟩
  unfold processData calculateMatches
  rcases map_eq_map_cases (hrules .ingress policy.ingressRule
    (List.subset_append_left _ _)) with
    ⟨hin, hin'⟩ | ⟨ingress, ingress', hin, hin', hingress⟩
  · simp [hin, hin']
  · rcases map_eq_map_cases (hrules .egress policy.egressRule
      (List.subset_append_right _ _)) with
      ⟨heg, heg'⟩ | ⟨egress, egress', heg, heg', hegress⟩
    · simp [hin, hin', heg, heg']
    · simp [hin, hin', heg, heg', policyView, hingress, hegress]

theorem processPolicy_found {api : PolicyCacheAPI} {policy : Policy}
    (h : api.lookupPolicy policy.id = (true, some policy)) :
    processPolicy api policy.id = (processData api policy).map some := by
  simp [processPolicy, h]

theorem views_subset {api api' : PolicyCacheAPI} {ids ids' : List PolicyID}
    {found found' : List (Option ContivPolicy)}
    (hfound : ids.mapM (processPolicy api) = some found)
    (hfound' : ids'.mapM (processPolicy api') = some found')
    (hids : ∀ id, id ∈ ids → id ∈ ids')
    (hsame : ∀ id ∈ ids, (processPolicy api id).map (Option.map policyView) =
        (processPolicy api' id).map (Option.map policyView)) :
    views found.reduceOption ⊆ views found'.reduceOption := by
  intro view hview
  rw [mem_views] at hview ⊢
  obtain ⟨cp, hcp, rfl⟩ := hview
  rw [List.reduceOption_mem_iff, mem_mapM_iff hfound] at hcp
  obtain ⟨id, hid, hprocess⟩ := hcp
  have hview := hsame id hid
  rw [hprocess, Option.map_some, eq_comm, Option.map_eq_some_iff] at hview
  obtain ⟨result, hprocess', heq⟩ := hview
  rw [Option.map_some, Option.map_eq_some_iff] at heq
  obtain ⟨cp', rfl, heq⟩ := heq
  refine ⟨cp', ?_, heq⟩
  rw [List.reduceOption_mem_iff, mem_mapM_iff hfound']
  exact ⟨id, hids id hid, hprocess'⟩

/-- What is computed for a pod from one of two caches is computed from the
other one, if they find the same policies for it and the same pods for the
peers of these. -/
theorem processPod_views (hpods : c.PodsRegistered)
    (hpods' : c'.PodsRegistered) (hpolicies : c.PoliciesRegistered)
    (hpolicies' : c'.PoliciesRegistered) {pod : PodID}
    (hsame : ∀ policy, c.FindsFor pod policy ↔ c'.FindsFor pod policy)
    (hfound : ∀ policy, c.FindsFor pod policy → policy.Proper ∧
      ∀ s, policy.PeerSelector s →
        ∀ id, c.Finds policy.ns s id ↔ c'.Finds policy.ns s id)
    (h : processPod (.of o p c) pod = some policies) :
    (processPod (.of o' p' c') pod).map views = some (views policies) := by
  obtain ⟨ids, hids, hmem⟩ := exists_lookupPolicies o p hpods hpolicies pod
  obtain ⟨ids', hids', hmem'⟩ :=
    exists_lookupPolicies o' p' hpods' hpolicies' pod
  have hids : (PolicyCacheAPI.of o p c).lookupPoliciesByPod pod = some ids := hids
  have hids' : (PolicyCacheAPI.of o' p' c').lookupPoliciesByPod pod =
      some ids' := hids'
  have hiff : ∀ id, id ∈ ids ↔ id ∈ ids' := by
    intro id
    simp only [hmem, hmem', hsame]
  simp only [processPod, hids, Option.bind_eq_bind, Option.bind_some,
    Option.bind_eq_some_iff, Option.pure_def, Option.some.injEq] at h
  obtain ⟨found, hall, rfl⟩ := h
  have hpolicy : ∀ id ∈ ids,
      (processPolicy (.of o p c) id).map (Option.map policyView) =
        (processPolicy (.of o' p' c') id).map (Option.map policyView) := by
    intro id hid
    obtain ⟨policy, hfinds, rfl⟩ := (hmem id).mp hid
    obtain ⟨hproper, hpeers⟩ := hfound policy hfinds
    have hdata := processData_congr o o' p p' hpods hpods' hproper hpeers
    rw [processPolicy_found (congrArg (Prod.mk true) hfinds.lookup),
      processPolicy_found (congrArg (Prod.mk true)
        ((hsame policy).mp hfinds).lookup)]
    rcases map_eq_map_cases hdata with
      ⟨hnone, hnone'⟩ | ⟨cp, cp', hsome, hsome', hview⟩
    · rw [hnone, hnone']
    · simp [hsome, hsome', hview]
  -- Each of the identifiers has a result, the same one up to order.
  have hex : ∀ id ∈ ids', ∃ cp, processPolicy (.of o' p' c') id = some cp ∧
      True := by
    intro id hid
    obtain ⟨cp, _, hcp⟩ := exists_of_mapM hall ((hiff id).mpr hid)
    rcases map_eq_map_cases (hpolicy id ((hiff id).mpr hid)) with
      ⟨hnone, _⟩ | ⟨_, cp', _, hsome', _⟩
    · rw [hcp] at hnone
      cases hnone
    · exact ⟨cp', hsome', trivial⟩
  obtain ⟨found', hall', _⟩ := exists_mapM_iff.mpr hex
  simp only [processPod, hids', hall', Option.bind_eq_bind,
    Option.bind_some, Option.pure_def, Option.map_some, Option.some.injEq]
  exact (views_subset hall' hall (fun id => (hiff id).mpr)
    fun id hid => (hpolicy id ((hiff id).mpr hid)).symm).antisymm
    (views_subset hall hall' (fun id => (hiff id).mp) hpolicy)

theorem processPod_views_of_mirrored {ds : Datastore} (h : Mirrored ds c)
    (h' : Mirrored ds c') (hds : ds.Proper) {pod : PodID}
    (hpolicies : processPod (.of o p c) pod = some policies) :
    (processPod (.of o' p' c') pod).map views = some (views policies) :=
  processPod_views o o' p p' (h.podsRegistered hds)
    (h'.podsRegistered hds) (h.policiesRegistered hds)
    (h'.policiesRegistered hds) (fun _ => h.findsFor_congr h')
    (fun policy hfinds =>
      ⟨hds.policies policy ((h.policies _ _).mp hfinds.lookup).2,
        fun _ _ _ => h.finds_congr h'⟩) hpolicies

theorem findsFor_of_mem_processPod {o : RangeOrder String}
    {p : RangeOrder (String × Policy)} (hpods : c.PodsRegistered)
    (hpolicies : c.PoliciesRegistered) {pod : PodID}
    (h : processPod (.of o p c) pod = some policies) {cp : ContivPolicy}
    (hcp : cp ∈ policies) :
    ∃ policy, c.FindsFor pod policy ∧
      processData (.of o p c) policy = some cp ∧ cp.id = policy.id := by
  obtain ⟨ids, hids, hmem⟩ := exists_lookupPolicies o p hpods hpolicies pod
  have hids : (PolicyCacheAPI.of o p c).lookupPoliciesByPod pod = some ids := hids
  simp only [processPod, hids, Option.bind_eq_bind, Option.bind_some,
    Option.bind_eq_some_iff, Option.pure_def, Option.some.injEq] at h
  obtain ⟨found, hfound, rfl⟩ := h
  rw [List.reduceOption_mem_iff, mem_mapM_iff hfound] at hcp
  obtain ⟨id, hid, hprocess⟩ := hcp
  obtain ⟨policy, hfinds, rfl⟩ := (hmem id).mp hid
  rw [processPolicy_found (congrArg (Prod.mk true) hfinds.lookup)] at hprocess
  obtain ⟨cp', hdata, heq⟩ := Option.map_eq_some_iff.mp hprocess
  cases heq
  exact ⟨policy, hfinds, hdata, id_of_processData hdata⟩

end Congr

end ContivVPP.Processor
