import ContivVPP.ProcessorRun

/-!
# When the policies of the pods are up to date

A change of a policy is processed for all pods that it selects.  When a pod
changes, the policies of other pods change that have it as a peer.  The
processor looks for these policies with a test of its own, and takes no pod for
affected by a new one.  The policies of the pods of the node are up to date in
every run in which no pod is missed in this way.
-/

namespace ContivVPP.PolicyCache

open K8s GoMap

/-! ## Replaced objects -/

theorem Datastore.holds_iff_mem {ds : Datastore} {obj : Object} :
    ds.Holds obj ↔ obj ∈ ds.values.entries.map Sigma.snd := by
  constructor
  · intro h
    exact List.mem_map.mpr ⟨⟨_, obj⟩, AList.mem_lookup_iff.mp h, rfl⟩
  · intro h
    obtain ⟨⟨key, obj⟩, hmem, rfl⟩ := List.mem_map.mp h
    exact Datastore.holds_iff.mpr ⟨key, AList.mem_lookup_iff.mpr hmem⟩

def Datastore.pod (ds : Datastore) (id : PodID) : Option Pod :=
  podKind.previous (ds.values.lookup (podKey id.name id.ns))

structure Replaces {β : Type} (kind : Kind β) (ds ds' : Datastore)
    (key : String) (old new : Option β) : Prop where
  others : ∀ obj, obj.key ≠ key → (ds.Holds obj ↔ ds'.Holds obj)
  values : ∀ obj, obj.key = key → ds.Holds obj ∨ ds'.Holds obj →
    ∃ v, obj = kind.object v
  old : ∀ v, ds.Holds (kind.object v) ∧ (kind.object v).key = key ↔ old = some v
  new : ∀ v, ds'.Holds (kind.object v) ∧ (kind.object v).key = key ↔ new = some v

section Replaces

variable {β : Type} {kind : Kind β} {ds ds' : Datastore} {key : String}

theorem previous_eq_some_iff (hkind : kind.Named) {u : β}
    (hu : (kind.object u).Valid) (hkey : (kind.object u).key = key) (v : β) :
    ds.Holds (kind.object v) ∧ (kind.object v).key = key ↔
      kind.previous (ds.values.lookup key) = some v := by
  constructor
  · rintro ⟨hholds, hv⟩
    rw [Datastore.Holds, hv] at hholds
    rw [hholds]
    exact kind.getValue_object v
  · intro h
    obtain ⟨obj, hobj, hvalue⟩ := Option.bind_eq_some_iff.mp h
    obtain ⟨hvalid, hown⟩ := ds.own key obj hobj
    obtain ⟨w, rfl⟩ := hkind.exists_object obj u hvalid hu
      (hown.symm.trans hkey.symm)
    obtain rfl : w = v :=
      Option.some.inj ((kind.getValue_object w).symm.trans hvalue)
    exact ⟨Datastore.holds_iff.mpr ⟨key, hobj⟩, hown.symm⟩

theorem replaces_put (hkind : kind.Named) {v : β} (hv : (kind.object v).Valid) :
    Replaces kind ds (ds.put (kind.object v) hv) (kind.object v).key
      (kind.previous (ds.values.lookup (kind.object v).key)) (some v) where
  others obj hobj := by
    have hne : obj ≠ kind.object v := fun heq => hobj (heq ▸ rfl)
    rw [Datastore.holds_put, or_iff_right hne, and_iff_right hobj]
  values obj hkey hholds :=
    hkind.exists_object obj v
      (hholds.elim Datastore.Holds.valid Datastore.Holds.valid) hv hkey
  old := previous_eq_some_iff hkind hv rfl
  new u := by
    rw [previous_eq_some_iff hkind hv rfl, Datastore.put, AList.lookup_insert]
    exact ⟨fun h => h ▸ (kind.getValue_object v).symm,
      fun h => h ▸ kind.getValue_object v⟩

theorem replaces_delete (hkind : kind.Named) {u : β}
    (hu : (kind.object u).Valid) (hkey : (kind.object u).key = key) :
    Replaces kind ds (ds.delete key) key
      (kind.previous (ds.values.lookup key)) none where
  others obj hobj := by rw [Datastore.holds_delete, and_iff_right hobj]
  values obj hobj hholds :=
    hkind.exists_object obj u
      (hholds.elim Datastore.Holds.valid Datastore.Holds.valid) hu
      (hobj.trans hkey.symm)
  old := previous_eq_some_iff hkind hu hkey
  new v := by
    rw [previous_eq_some_iff hkind hu hkey, Datastore.delete, AList.lookup_erase]
    rfl

theorem Replaces.symm {old new : Option β}
    (h : Replaces kind ds ds' key old new) :
    Replaces kind ds' ds key new old where
  others obj hobj := (h.others obj hobj).symm
  values obj hobj hholds := h.values obj hobj hholds.symm
  old := h.new
  new := h.old

theorem Replaces.holds_iff {old new : Option β}
    (h : Replaces kind ds ds' key old new) {obj : Object}
    (hobj : ∀ v, obj ≠ kind.object v) : ds.Holds obj ↔ ds'.Holds obj := by
  by_cases hkey : obj.key = key
  · have hnot : ¬ (ds.Holds obj ∨ ds'.Holds obj) := fun hholds =>
      (h.values obj hkey hholds).elim hobj
    rw [not_or] at hnot
    exact iff_of_false hnot.1 hnot.2
  · exact h.others obj hkey

end Replaces

end ContivVPP.PolicyCache

namespace ContivVPP.Processor

open GoMap K8s Net Configurator PolicyCache Incremental PartialLoops

/-! ## Policies and peers of a pod -/

structure Governs (ds : Datastore) (policy : Policy) (pod : Pod) : Prop where
  holds : ds.Holds (.policy policy)
  ns : policy.ns = pod.ns
  selects : ∃ selector, policy.pods = some selector ∧
    selector.matchLabel ≠ [] ∧ selector.Selects pod.label

/-- The selectors that tell the policies of the pod and their peers are
evaluated as they are meant, whatever pods there are. -/
structure ReadsRight (ds : Datastore) (pod : Pod) : Prop where
  policies : ∀ policy, ds.Holds (.policy policy) → policy.ns = pod.ns →
    ∀ selector, policy.pods = some selector → selector.matchLabel ≠ [] →
      Evaluable selector
  peers : ∀ policy, Governs ds policy pod →
    ∀ selector, policy.PeerSelector selector → Evaluable selector

def Takes (ns : String) (selector : LabelSelector) (pod : Option Pod) : Prop :=
  ∃ data, pod = some data ∧ data.ns = ns ∧ selector.Selects data.label

variable {id : PodID}

section Objects

variable {ds ds' : Datastore} {c c' : Cache} {pod : Pod} {policy : Policy}
  {key : String} {selector : LabelSelector} {ns : String}

theorem hasPod_iff (h : Mirrored ds c) :
    c.HasPod ns pod ↔ ds.Holds (.pod pod) ∧ pod.ns = ns :=
  and_congr_left' ((h.pods _ _).trans (and_iff_right rfl))

theorem lookup_policy_iff (h : Mirrored ds c) :
    c.configuredPolicies.lookup policy.id.string = some policy ↔
      ds.Holds (.policy policy) :=
  (h.policies _ _).trans (and_iff_right rfl)

theorem finds_iff (h : Mirrored ds c) (hselector : Evaluable selector) :
    c.Finds ns selector id ↔
      ∃ pod, ds.Holds (.pod pod) ∧ Takes ns selector (some pod) ∧
        id = pod.id := by
  simp only [Cache.Finds, Takes, Option.some.injEq, exists_eq_left']
  refine exists_congr fun pod => ?_
  rw [← and_assoc, ← and_assoc, ← and_assoc]
  refine and_congr_left' ?_
  rw [← hasPod_iff h]
  exact and_congr_right fun hpod => hselector.codeSelects_iff hpod

theorem findsFor_iff (h : Mirrored ds c) (hpod : ds.Holds (.pod pod))
    (hselectors : ∀ selector, policy.pods = some selector →
      selector.matchLabel ≠ [] → ds.Holds (.policy policy) →
      policy.ns = pod.ns → Evaluable selector) :
    c.FindsFor pod.id policy ↔ Governs ds policy pod := by
  have hhas : c.HasPod pod.ns pod := (hasPod_iff h).mpr ⟨hpod, rfl⟩
  constructor
  · rintro ⟨pod', selector, hpod', hid, hpolicy, hlabels, hcode⟩
    obtain rfl : pod = pod' := by
      have hlookup := hhas.1
      rw [hid, hpod'.1] at hlookup
      exact (Option.some.inj hlookup).symm
    have hholds := (lookup_policy_iff h).mp hpolicy.lookup
    have hevaluable := hselectors selector hpolicy.pods hlabels hholds
      hpod'.2.symm
    exact ⟨hholds, hpod'.2.symm, selector, hpolicy.pods, hlabels,
      (hevaluable.codeSelects_iff hpod').mp hcode⟩
  · rintro ⟨hholds, hns, selector, hpods, hlabels, hselects⟩
    rw [← hns] at hhas
    exact ⟨pod, selector, hhas, rfl,
      ⟨(lookup_policy_iff h).mpr hholds, rfl, hpods⟩, hlabels,
      ((hselectors selector hpods hlabels hholds hns).codeSelects_iff
        hhas).mpr hselects⟩

/-! ## Changes of pods -/

theorem holds_policy_iff {old new : Option Pod}
    (hr : Replaces podKind ds ds' key old new) :
    ds.Holds (.policy policy) ↔ ds'.Holds (.policy policy) :=
  hr.holds_iff fun v heq => by cases heq

theorem governs_congr {old new : Option Pod}
    (hr : Replaces podKind ds ds' key old new) :
    Governs ds policy pod ↔ Governs ds' policy pod :=
  ⟨fun h => ⟨(holds_policy_iff hr).mp h.holds, h.ns, h.selects⟩,
    fun h => ⟨(holds_policy_iff hr).mpr h.holds, h.ns, h.selects⟩⟩

theorem ReadsRight.findsFor_replaced_iff {old new : Option Pod}
    (hreads : ReadsRight ds pod) (hr : Replaces podKind ds ds' key old new)
    (h' : Mirrored ds' c') (hpod : ds'.Holds (.pod pod)) :
    c'.FindsFor pod.id policy ↔ Governs ds policy pod := by
  rw [governs_congr hr]
  exact findsFor_iff h' hpod fun selector hpods hlabels hholds hns =>
    hreads.policies policy ((holds_policy_iff hr).mpr hholds) hns selector
      hpods hlabels

theorem id_eq_of_key {pod' : Pod} (hpod : ds.Holds (.pod pod))
    (hpod' : ds'.Holds (.pod pod'))
    (hkey : (Object.pod pod).key = (Object.pod pod').key) :
    pod.id = pod'.id := by
  obtain ⟨hns, hname⟩ := (podKey_inj hpod.valid.1 hpod.valid.2 hpod'.valid.1
    hpod'.valid.2).mp hkey
  rw [Pod.id, Pod.id, hns, hname]

theorem finds_of_replaced {old new : Option Pod} (h : Mirrored ds c)
    (h' : Mirrored ds' c') (hr : Replaces podKind ds ds' key old new)
    (hselector : Evaluable selector)
    (hkeeps : Takes ns selector old → Takes ns selector new)
    (hid : c.Finds ns selector id) : c'.Finds ns selector id := by
  rw [finds_iff h' hselector]
  obtain ⟨pod, hpod, htakes, rfl⟩ := (finds_iff h hselector).mp hid
  by_cases hkey : (Object.pod pod).key = key
  · obtain ⟨pod', hnew, htakes'⟩ := hkeeps ((hr.old pod).mp ⟨hpod, hkey⟩ ▸ htakes)
    obtain ⟨hpod', hkey'⟩ := (hr.new pod').mpr hnew
    exact ⟨pod', hpod', ⟨pod', rfl, htakes'⟩,
      id_eq_of_key hpod hpod' (hkey.trans hkey'.symm)⟩
  · exact ⟨pod, (hr.others _ hkey).mp hpod, htakes, rfl⟩

/-- What is computed for a pod stays the same if its policies do not tell the
replaced pods apart. -/
theorem computed_replaced {old new : Option Pod} (h : Mirrored ds c)
    (h' : Mirrored ds' c') (hds : ds.Proper) (hds' : ds'.Proper)
    (hr : Replaces podKind ds ds' key old new) (hpod : ds.Holds (.pod pod))
    (hkey : (Object.pod pod).key ≠ key) (hreads : ReadsRight ds pod)
    (hkeeps : ∀ policy, Governs ds policy pod →
      ∀ selector, policy.PeerSelector selector →
        (Takes policy.ns selector old ↔ Takes policy.ns selector new)) :
    computed c pod.id = computed c' pod.id := by
  have hpod' : ds'.Holds (.pod pod) := (hr.others _ hkey).mp hpod
  have hfor : ∀ policy, c.FindsFor pod.id policy ↔ Governs ds policy pod :=
    fun policy => findsFor_iff h hpod fun selector hpods hlabels hholds hns =>
      hreads.policies policy hholds hns selector hpods hlabels
  have hfor' : ∀ policy, c'.FindsFor pod.id policy ↔ Governs ds policy pod :=
    fun policy => hreads.findsFor_replaced_iff hr h' hpod'
  refine computed_eq (h.podsRegistered hds) (h'.podsRegistered hds')
    (h.policiesRegistered hds) (h'.policiesRegistered hds')
    (fun policy => (hfor policy).trans (hfor' policy).symm)
    fun policy hfinds => ?_
  have hgoverns := (hfor policy).mp hfinds
  refine ⟨hds.policies policy hgoverns.holds, fun selector hselector id => ?_⟩
  have hevaluable := hreads.peers policy hgoverns selector hselector
  have hiff := hkeeps policy hgoverns selector hselector
  exact ⟨finds_of_replaced h h' hr hevaluable hiff.mp,
    finds_of_replaced h' h hr.symm hevaluable hiff.mpr⟩

/-! ## Changes of policies -/

theorem holds_pod_iff {old new : Option Policy}
    (hr : Replaces policyKind ds ds' key old new) :
    ds.Holds (.pod pod) ↔ ds'.Holds (.pod pod) :=
  hr.holds_iff fun v heq => by cases heq

section

variable {old new : Option Policy} (h : Mirrored ds c) (h' : Mirrored ds' c')
include h h'

theorem hasPod_replaced (hr : Replaces policyKind ds ds' key old new) :
    c.HasPod = c'.HasPod := by
  funext ns pod
  rw [hasPod_iff h, hasPod_iff h', holds_pod_iff hr]

theorem findsFor_of_replaced (hr : Replaces policyKind ds ds' key old new)
    (hold : ∀ policy, old = some policy → ¬ Selected c policy id)
    (hfinds : c.FindsFor id policy) : c'.FindsFor id policy := by
  have hhas := hasPod_replaced h h' hr
  obtain ⟨pod, selector, hpod, rfl, hpolicy, hlabels, hcode⟩ := hfinds
  have hholds := (lookup_policy_iff h).mp hpolicy.lookup
  have hkey : (Object.policy policy).key ≠ key := fun hkey =>
    hold policy ((hr.old policy).mp ⟨hholds, hkey⟩)
      ⟨selector, pod, hpolicy.pods, hpod, hcode, rfl⟩
  exact ⟨pod, selector, hhas ▸ hpod, rfl,
    ⟨(lookup_policy_iff h').mpr ((hr.others _ hkey).mp hholds), rfl,
      hpolicy.pods⟩, hlabels, (codeSelects_congr hhas).mp hcode⟩

theorem computed_unselected (hds : ds.Proper) (hds' : ds'.Proper)
    (hr : Replaces policyKind ds ds' key old new)
    (hold : ∀ policy, old = some policy → ¬ Selected c' policy id)
    (hnew : ∀ policy, new = some policy → ¬ Selected c' policy id) :
    computed c id = computed c' id := by
  have hhas := hasPod_replaced h h' hr
  have hselected : ∀ policy, Selected c policy id ↔ Selected c' policy id := by
    intro policy
    simp only [Selected, hhas, codeSelects_congr hhas]
  refine computed_eq (h.podsRegistered hds) (h'.podsRegistered hds')
    (h.policiesRegistered hds) (h'.policiesRegistered hds') (fun policy =>
      ⟨findsFor_of_replaced h h' hr fun q hq => (hselected q).not.mpr
        (hold q hq), findsFor_of_replaced h' h hr.symm hnew⟩)
    fun policy hfinds => ⟨hds.policies policy
      ((lookup_policy_iff h).mp hfinds.lookup), fun selector _ id => ?_⟩
  simp only [Cache.Finds, hhas, codeSelects_congr hhas]

end

end Objects

/-! ## The condition on a change -/

def Reaches (hostNetwork : IPNet) (s : State) (c' : Cache) (change : Change)
    (pod : PodID) : Prop :=
  ∃ n ∈ change.notifications s.datastore,
    Affects hostNetwork s.podIPAddressMap c' pod n

structure Indifferent (ds : Datastore) (pod : Pod) (old new : Option Pod) :
    Prop where
  reads : ReadsRight ds pod
  peers : ∀ policy, Governs ds policy pod →
    ∀ selector, policy.PeerSelector selector →
      (Takes policy.ns selector old ↔ Takes policy.ns selector new)

/-- A change of one pod is processed for the other pods of the node, unless
they are indifferent to it. -/
def ReachesOthers (hostNetwork : IPNet) (s : State) (c' : Cache)
    (change : Change) (id : PodID) (old new : Option Pod) : Prop :=
  ∀ pod, s.datastore.Holds (.pod pod) → OfNode hostNetwork pod →
    pod.id ≠ id → ¬ Reaches hostNetwork s c' change pod.id →
      Indifferent s.datastore pod old new

structure Fresh (hostNetwork : IPNet) (before : List Delivery) (s : State)
    (pod : Pod) : Prop where
  reads : ReadsRight s.datastore pod
  policies : ∀ policy, ¬ Governs s.datastore policy pod
  earlier : ∀ earlier, earlier <+: before →
    ∀ s₀, State.run hostNetwork earlier = some s₀ →
      ∀ policy, ¬ s₀.cache.FindsFor pod.id policy

/-- The condition on a change, where `c'` has the objects after it. -/
def Safe (hostNetwork : IPNet) (before : List Delivery) (s : State)
    (c' : Cache) (change : Change) : Prop :=
  match change with
  | .putPod pod _ =>
      ReachesOthers hostNetwork s c' change pod.id (s.datastore.pod pod.id)
        (some pod) ∧
      (s.datastore.pod pod.id = none → OfNode hostNetwork pod →
        Fresh hostNetwork before s pod)
  | .deletePod id _ =>
      ReachesOthers hostNetwork s c' change id (s.datastore.pod id) none
  -- All pods that a policy selects are processed.
  | .putPolicy _ _ => True
  | .deletePolicy _ _ => True

/-! ## Safe changes -/

section Safe

variable {hostNetwork : IPNet} {before : List Delivery} {s : State}
  {ds' : Datastore} {c' : Cache} {change : Change} {key : String}

theorem computed_of_not_findsFor (hpods : c'.PodsRegistered)
    (hpolicies : c'.PoliciesRegistered) {pod : PodID}
    (h : ∀ policy, ¬ c'.FindsFor pod policy) :
    computed c' pod = some (views []) := by
  obtain ⟨ids, hids, hmem⟩ :=
    exists_lookupPolicies .insertion .insertion hpods hpolicies pod
  obtain rfl : ids = [] := List.eq_nil_iff_forall_not_mem.mpr fun id hid => by
    obtain ⟨policy, hfinds, _⟩ := (hmem id).mp hid
    exact h policy hfinds
  have hids : (PolicyCacheAPI.of .insertion .insertion
      c').lookupPoliciesByPod pod = some [] := hids
  simp [computed, processPod, hids]

theorem exists_findsFor_of_configured {run : List Delivery}
    (h : State.run hostNetwork run = some s) {pod : PodID}
    (hne : s.configured pod ≠ []) :
    ∃ earlier, earlier <+: run ∧ ∃ s₀, State.run hostNetwork earlier = some s₀ ∧
      ∃ policy, s₀.cache.FindsFor pod policy := by
  induction run using List.reverseRecOn generalizing s with
  | nil =>
      cases h
      exact absurd rfl hne
  | append_singleton before d ih =>
      obtain ⟨mid, calls, hmid, hdeliver⟩ := run_append.mp h
      rcases deliver_configured hdeliver (run_mirrors hmid) pod with
        hsame | ⟨names, order, c, hc, hprocess⟩
      · obtain ⟨earlier, hpre, hrest⟩ := ih hmid (hsame ▸ hne)
        exact ⟨earlier, hpre.trans (List.prefix_append before [d]), hrest⟩
      · have hs := run_mirrors h
        obtain ⟨cp, hcp⟩ := List.exists_mem_of_ne_nil _ hne
        obtain ⟨policy, hfinds, _⟩ := findsFor_of_mem_processPod
          (hc.podsRegistered hs.proper) (hc.policiesRegistered hs.proper)
          hprocess hcp
        exact ⟨_, List.prefix_rfl, s, h, policy,
          (hc.findsFor_congr hs.cache).mp hfinds⟩

theorem Fresh.computed_eq {pod : Pod} (h : Fresh hostNetwork before s pod)
    (hrun : State.run hostNetwork before = some s)
    {old new : Option Pod}
    (hr : Replaces podKind s.datastore ds' key old new)
    (hc' : Mirrored ds' c') (hds' : ds'.Proper)
    (hpod : ds'.Holds (.pod pod)) :
    computed c' pod.id = some (views (s.configured pod.id)) := by
  have hempty : s.configured pod.id = [] := by
    by_contra hne
    obtain ⟨earlier, hpre, s₀, hs₀, policy, hfinds⟩ :=
      exists_findsFor_of_configured hrun hne
    exact h.earlier earlier hpre s₀ hs₀ policy hfinds
  rw [hempty]
  exact computed_of_not_findsFor (hc'.podsRegistered hds')
    (hc'.policiesRegistered hds') fun policy hfinds =>
      h.policies policy ((h.reads.findsFor_replaced_iff hr hc' hpod).mp hfinds)

theorem OnNode.holds {c : Cache} {ds : Datastore} (hc : Mirrored ds c)
    (hds : ds.Proper) (h : OnNode hostNetwork c id) :
    ∃ pod : Pod, ds.Holds (.pod pod) ∧ OfNode hostNetwork pod ∧ pod.id = id := by
  obtain ⟨pod, hlookup, hnode⟩ := h
  obtain ⟨hstring, hholds⟩ := (hc.pods _ _).mp hlookup
  have hvalid := hds.pods pod hholds
  exact ⟨pod, hholds, hnode,
    (PodID.eq_of_string hvalid.ns hvalid.name hstring).symm⟩

theorem onNode_of_holds {c : Cache} {ds : Datastore} (hc : Mirrored ds c)
    {pod : Pod} (hpod : ds.Holds (.pod pod)) (hnode : OfNode hostNetwork pod) :
    OnNode hostNetwork c pod.id :=
  ⟨pod, (hc.pods _ _).mpr ⟨rfl, hpod⟩, hnode⟩

theorem key_eq_of_id {pod : Pod} (h : pod.id = id) :
    (Object.pod pod).key = podKey id.name id.ns := by
  subst h
  rfl

theorem covers_podChange (hs : s.Mirrors) (hc' : Mirrored ds' c')
    (hds' : ds'.Proper) {old new : Option Pod}
    (hr : Replaces podKind s.datastore ds' key old new)
    (hkeys : key = podKey id.name id.ns)
    (hothers : ReachesOthers hostNetwork s c' change id old new)
    (hself : ∀ pod, new = some pod → ds'.Holds (.pod pod) →
      OfNode hostNetwork pod →
      (old ≠ none → Reaches hostNetwork s c' change pod.id) ∧
      (old = none → computed c' pod.id = some (views (s.configured pod.id)))) :
    Covers (OnNode hostNetwork) computed (Reaches hostNetwork s c' change)
      s.cache (fun pod => some (views (s.configured pod))) c' := by
  constructor
  · intro x hx hx' hnot
    obtain ⟨pod, hpod, hnode, rfl⟩ := hx'.holds hc' hds'
    by_cases hkey : (Object.pod pod).key = key
    · -- The pod itself was there before.
      obtain ⟨pod', hpod', _, hid⟩ := hx.holds hs.cache hs.proper
      have hkey' := (key_eq_of_id hid).trans hkey
      have hne : old ≠ none := by
        rw [(hr.old pod').mp ⟨hpod', hkey'⟩]
        exact Option.some_ne_none pod'
      exact absurd ((hself pod ((hr.new pod).mp ⟨hpod, hkey⟩) hpod hnode).1
        hne) hnot
    · have hold := (hr.others _ hkey).mpr hpod
      obtain ⟨hreads, hpeers⟩ := hothers pod hold hnode
        (fun hid => hkey (hkeys ▸ key_eq_of_id hid)) hnot
      exact (computed_replaced hs.cache hc' hs.proper hds' hr hold hkey hreads
        hpeers).symm
  · intro x hx hx' hnot
    obtain ⟨pod, hpod, hnode, rfl⟩ := hx'.holds hc' hds'
    by_cases hkey : (Object.pod pod).key = key
    · obtain ⟨hreach, hcomputed⟩ :=
        hself pod ((hr.new pod).mp ⟨hpod, hkey⟩) hpod hnode
      by_cases hold : old = none
      · exact hcomputed hold
      · exact absurd (hreach hold) hnot
    · exact absurd (onNode_of_holds hs.cache ((hr.others _ hkey).mpr hpod)
        hnode) hx

theorem covers_policyChange (hs : s.Mirrors) (hc' : Mirrored ds' c')
    (hds' : ds'.Proper) {old new : Option Policy}
    (hr : Replaces policyKind s.datastore ds' key old new)
    (hreaches : ∀ policy, old = some policy ∨ new = some policy →
      ∀ id, Selected c' policy id → HasHostIP hostNetwork Pod.ipAddress c' id →
        Reaches hostNetwork s c' change id) :
    Covers (OnNode hostNetwork) computed (Reaches hostNetwork s c' change)
      s.cache (fun pod => some (views (s.configured pod))) c' := by
  constructor
  · intro x _ hx' hnot
    obtain ⟨data, hlookup, _, _, hcontains⟩ := hx'
    have hhost : HasHostIP hostNetwork Pod.ipAddress c' x :=
      ⟨data, hlookup, hcontains⟩
    exact (computed_unselected hs.cache hc' hs.proper hds' hr
      (fun policy hpolicy hselected =>
        hnot (hreaches policy (Or.inl hpolicy) x hselected hhost))
      (fun policy hpolicy hselected =>
        hnot (hreaches policy (Or.inr hpolicy) x hselected hhost))).symm
  · intro x hx hx' _
    obtain ⟨pod, hpod, hnode, rfl⟩ := hx'.holds hc' hds'
    exact absurd (onNode_of_holds hs.cache ((holds_pod_iff hr).mpr hpod)
      hnode) hx

/-- No pod is missed at a safe change. -/
theorem Safe.covers (hsafe : Safe hostNetwork before s c' change)
    (hrun : State.run hostNetwork before = some s)
    (hc' : Mirrored (change.event.content s.datastore) c') :
    Covers (OnNode hostNetwork) computed (Reaches hostNetwork s c' change)
      s.cache (fun pod => some (views (s.configured pod))) c' := by
  have hs := run_mirrors hrun
  have hds' := change.proper hs.proper
  cases change with
  | putPod pod hvalid =>
      have hobject : (podKind.object pod).Valid := ⟨hvalid.ns, hvalid.name⟩
      have hr : Replaces podKind s.datastore (s.datastore.put (.pod pod) hobject)
          (podKey pod.id.name pod.id.ns) (s.datastore.pod pod.id)
          (some pod) :=
        replaces_put podKind_named hobject
      refine covers_podChange hs hc' hds' hr rfl hsafe.1 ?_
      intro pod' hnew hpod hnode
      obtain rfl := Option.some.inj hnew
      refine ⟨fun hold => ?_, fun hold => (hsafe.2 hold hnode).computed_eq hrun
        hr hc' hds' hpod⟩
      obtain ⟨old, hold⟩ := Option.ne_none_iff_exists'.mp hold
      exact ⟨.updatePod old pod,
        Kind.mem_putNotifications.mpr (Or.inl ⟨old, hold, rfl⟩), hnode.1,
        hnode.2.1, Or.inl rfl, pod, (hc'.pods _ _).mpr ⟨rfl, hpod⟩,
        hnode.2.2⟩
  | deletePod id hvalid =>
      have hobject : (podKind.object ⟨id.name, id.ns, [], ""⟩).Valid := hvalid
      have hr : Replaces podKind s.datastore
          (s.datastore.delete (podKey id.name id.ns)) (podKey id.name id.ns)
          (s.datastore.pod id) none :=
        replaces_delete podKind_named hobject rfl
      refine covers_podChange hs hc' hds' hr rfl hsafe ?_
      intro pod hnew
      cases hnew
  | putPolicy policy hproper =>
      have hobject : (policyKind.object policy).Valid :=
        ⟨hproper.valid.ns, hproper.valid.name⟩
      refine covers_policyChange hs hc' hds'
        (replaces_put policyKind_named hobject) ?_
      rintro q (hold | hnew) id hselected hhost
      · exact ⟨.updatePolicy q policy, Kind.mem_putNotifications.mpr
          (Or.inl ⟨q, hold, rfl⟩), Or.inl hselected, hhost⟩
      · cases hnew
        exact ⟨.addPolicy policy, Kind.mem_putNotifications.mpr (Or.inr rfl),
          hselected, hhost⟩
  | deletePolicy id hvalid =>
      have hobject : (policyKind.object
          ⟨id.name, id.ns, none, .default, [], []⟩).Valid := hvalid
      refine covers_policyChange hs hc' hds'
        (replaces_delete policyKind_named hobject rfl) ?_
      rintro q (hold | hnew) id' hselected hhost
      · refine ⟨.delPolicy q, List.mem_singleton.mpr ?_, hselected, hhost⟩
        rw [hold]
        rfl
      · cases hnew

end Safe

def insertionDelivery (change : Change) : Delivery :=
  ⟨change, fun _ => ⟨.insertion, .insertion⟩⟩

def podNetwork : IPNet := ⟨[10, 1, 1, 0], [255, 255, 255, 0]⟩

theorem shopPod_ofNode : OfNode podNetwork shopPod := by
  unfold OfNode
  decide +kernel

theorem blogPod_valid : blogPod.Valid := ⟨by decide, by decide, by decide⟩

theorem blogPod_named : ValidName blogPod.id.ns ∧ ValidName blogPod.id.name :=
  ⟨blogPod_valid.ns, blogPod_valid.name⟩

def fromBlog : Policy :=
  ⟨"from-blog", "default", some ⟨[⟨"app", "shop"⟩], []⟩, .ingress,
    [⟨[], [⟨some ⟨[⟨"env", "prod"⟩], []⟩, none, none⟩]⟩], []⟩

theorem fromBlog_proper : fromBlog.Proper where
  valid := ⟨by decide, by decide, _, rfl, by decide, by simp⟩
  peers := by
    simp only [fromBlog, List.append_nil, List.forall_mem_singleton,
      Option.some.injEq, forall_eq']
    exact ⟨by decide, by simp⟩

theorem holds_fromBlog_iff {ds : Datastore}
    (h : ds.values.entries.map Sigma.snd =
      [.policy fromBlog, .pod blogPod, .pod shopPod]) (obj : Object) :
    ds.Holds obj ↔ obj = .policy fromBlog ∨ obj = .pod blogPod ∨
      obj = .pod shopPod := by
  rw [Datastore.holds_iff_mem, h]
  simp

theorem affects_shopPod {ds : Datastore} {c : Cache}
    {podIPAddressMap : PodIPAddressMap}
    (hc : Mirrored (ds.delete (podKey blogPod.name blogPod.ns)) c)
    (hshop : ds.Holds (.pod shopPod)) (hpolicy : ds.Holds (.policy fromBlog))
    (haddress : podIPAddressMap.lookup shopPod.id.string =
      some "10.1.1.2") :
    c.configuredPods.lookup shopPod.id.string = some shopPod ∧
      Affects podNetwork podIPAddressMap c shopPod.id (.delPod blogPod) := by
  have hhas : c.HasPod fromBlog.ns shopPod := (hasPod_iff hc).mpr
    ⟨Datastore.holds_delete.mpr ⟨by decide, hshop⟩, rfl⟩
  have hinstalled := (lookup_policy_iff hc).mpr
    (Datastore.holds_delete.mpr ⟨by decide, hpolicy⟩)
  have hselects : CodeSelects c fromBlog.ns ⟨[⟨"app", "shop"⟩], []⟩ shopPod :=
    (Evaluable.codeSelects_iff (.labels rfl (by decide) (by decide))
      hhas).mpr (by decide)
  refine ⟨hhas.1, by decide, ⟨fromBlog, ⟨⟨_, hinstalled⟩, blogPod,
    List.mem_singleton_self _, ⟨_, List.mem_singleton_self _, by decide⟩⟩,
    _, shopPod, rfl, hhas, hselects, rfl⟩, shopPod, hhas.1, ?_⟩
  rw [lastIPAddress, haddress]
  decide +kernel

theorem Change.put_or_holds {ds : Datastore} (change : Change) {obj : Object}
    (h : (change.event.content ds).Holds obj) :
    (∃ hvalid, change.event = .put obj hvalid) ∨ ds.Holds obj := by
  have hput : ∀ {obj'} (hvalid : Object.Valid obj'),
      (ds.put obj' hvalid).Holds obj →
      (∃ hvalid', Event.put obj' hvalid = .put obj hvalid') ∨ ds.Holds obj := by
    intro obj' hvalid hholds
    rcases (Datastore.holds_put hvalid).mp hholds with rfl | hold
    · exact Or.inl ⟨hvalid, rfl⟩
    · exact Or.inr hold.2
  cases change with
  | putPod pod hvalid => exact hput _ h
  | putPolicy policy hproper => exact hput _ h
  | deletePod id _ => exact Or.inr (Datastore.holds_delete.mp h).2
  | deletePolicy id _ => exact Or.inr (Datastore.holds_delete.mp h).2

theorem exists_put_of_holds {hostNetwork : IPNet} {run : List Delivery}
    {s : State} (h : State.run hostNetwork run = some s) {obj : Object}
    (hobj : s.datastore.Holds obj) :
    ∃ d ∈ run, ∃ hvalid, d.change.event = .put obj hvalid := by
  induction run using List.reverseRecOn generalizing s with
  | nil =>
      cases h
      simp [State.init, Datastore.Holds, Datastore.empty] at hobj
  | append_singleton before d ih =>
      obtain ⟨mid, calls, hmid, hdeliver⟩ := run_append.mp h
      rw [deliver_datastore hdeliver (run_mirrors hmid)] at hobj
      rcases d.change.put_or_holds hobj with hput | hold
      · exact ⟨d, by simp, hput⟩
      · obtain ⟨d', hd', hrest⟩ := ih hmid hold
        exact ⟨d', List.mem_append_left _ hd', hrest⟩

def deletedPeer : List Delivery :=
  [insertionDelivery (.putPod shopPod shopPod_valid),
    insertionDelivery (.putPod shopPod shopPod_valid),
    insertionDelivery (.putPod blogPod blogPod_valid),
    insertionDelivery (.putPolicy fromBlog fromBlog_proper),
    insertionDelivery (.deletePod blogPod.id blogPod_named)]

theorem deletedPeer_state :
    ((State.run podNetwork (deletedPeer.take 4)).map fun s =>
      (s.datastore.values.entries.map Sigma.snd,
        s.podIPAddressMap.lookup shopPod.id.string)) =
      some ([.policy fromBlog, .pod blogPod, .pod shopPod],
        some "10.1.1.2") := by
  decide +kernel

theorem not_holds_policy {before : List Delivery} {s : State}
    (h : State.run podNetwork before = some s)
    (hbefore : before <+: deletedPeer.take 3) (policy : Policy) :
    ¬ s.datastore.Holds (.policy policy) := by
  intro hpolicy
  obtain ⟨d, hd, hvalid, hevent⟩ := exists_put_of_holds h hpolicy
  have hmem := hbefore.subset hd
  simp only [deletedPeer, List.take_succ_cons, List.take_zero, List.mem_cons,
    List.not_mem_nil, or_false] at hmem
  rcases hmem with rfl | rfl | rfl <;> cases hevent

theorem indifferent_of_no_policy {ds : Datastore}
    (h : ∀ policy, ¬ ds.Holds (.policy policy)) (pod : Pod)
    (old new : Option Pod) : Indifferent ds pod old new where
  reads := ⟨fun policy hpolicy => absurd hpolicy (h policy),
    fun policy hgoverns => absurd hgoverns.holds (h policy)⟩
  peers policy hgoverns := absurd hgoverns.holds (h policy)

theorem safe_putPod {before : List Delivery} {s : State} {c' : Cache}
    (h : State.run podNetwork before = some s)
    (hbefore : before <+: deletedPeer.take 3) (pod : Pod)
    (hvalid : pod.Valid) :
    Safe podNetwork before s c' (.putPod pod hvalid) := by
  have hnone := not_holds_policy h hbefore
  refine ⟨fun other _ _ _ _ => indifferent_of_no_policy hnone other _ _,
    fun _ _ => ⟨(indifferent_of_no_policy hnone pod none none).reads,
      fun policy hgoverns => hnone policy hgoverns.holds,
      fun earlier hearlier s₀ hs₀ policy hfinds => ?_⟩⟩
  exact not_holds_policy hs₀ (hearlier.trans hbefore) policy
    ((lookup_policy_iff (run_mirrors hs₀).cache).mp hfinds.lookup)

theorem safe_deletePod {s : State} {c' : Cache}
    (h : State.run podNetwork (deletedPeer.take 4) = some s)
    (hvalid : ValidName blogPod.id.ns ∧ ValidName blogPod.id.name)
    (hc' : Mirrored (s.datastore.delete
      (podKey blogPod.id.name blogPod.id.ns)) c') :
    Safe podNetwork (deletedPeer.take 4) s c' (.deletePod blogPod.id hvalid) := by
  obtain ⟨s', hs', hstate⟩ := Option.map_eq_some_iff.mp deletedPeer_state
  obtain rfl := Option.some.inj (h.symm.trans hs')
  obtain ⟨hobjects, haddress⟩ := Prod.mk.inj hstate
  have hholds := holds_fromBlog_iff hobjects
  have hblog : s.datastore.pod blogPod.id = some blogPod :=
    (previous_eq_some_iff podKind_named hvalid rfl blogPod).mp
      ⟨(hholds _).mpr (Or.inr (Or.inl rfl)), rfl⟩
  intro pod hpod _ hne hnot
  rcases (hholds _).mp hpod with hpod | hpod | hpod <;> cases hpod
  · exact absurd rfl hne
  · refine absurd ⟨.delPod blogPod, List.mem_singleton.mpr ?_,
      (affects_shopPod hc' ((hholds _).mpr (Or.inr (Or.inr rfl)))
        ((hholds _).mpr (Or.inl rfl)) haddress).2⟩ hnot
    rw [show podKind.previous _ = some blogPod from hblog]
    rfl

def isolateShop : Policy :=
  ⟨"isolate-shop", "default", some ⟨[⟨"app", "shop"⟩], []⟩, .ingress, [], []⟩

theorem isolateShop_proper : isolateShop.Proper where
  valid := ⟨by decide, by decide, _, rfl, by decide, by simp⟩
  peers := by simp [isolateShop]

def addedPod : List Delivery :=
  [insertionDelivery (.putPolicy isolateShop isolateShop_proper),
    insertionDelivery (.putPod shopPod shopPod_valid)]

end ContivVPP.Processor
