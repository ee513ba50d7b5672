import ContivVPP.SelectorLookup

/-!
# Policies of a pod

The policies of a pod are looked up by its labels, and then kept if the pod is
among the pods of their selectors.  So a policy without match labels is never
found.
-/

namespace ContivVPP.K8s

structure Policy.Valid (policy : Policy) : Prop where
  ns : ValidName policy.ns
  name : ValidName policy.name
  pods : ∃ selector : LabelSelector, policy.pods = some selector ∧ selector.Valid

end ContivVPP.K8s

namespace ContivVPP.PolicyCache

open K8s GoMap

/-- Each policy is registered under its own identifier. -/
def Cache.PoliciesRegistered (c : Cache) : Prop :=
  ∀ id policy, c.configuredPolicies.lookup id = some policy →
    id = policy.id.string ∧ policy.Valid

/-- The policy is registered, belongs to the namespace and has the
selector. -/
structure Cache.HasPolicy (c : Cache) (ns : String) (policy : Policy)
    (selector : LabelSelector) : Prop where
  lookup : c.configuredPolicies.lookup policy.id.string = some policy
  ns_eq : policy.ns = ns
  pods : policy.pods = some selector

variable {id : String} {policy : Policy}

section Candidates

variable {o : RangeOrder String} {c : Cache}

theorem mem_lookupPolicyByNSLabelSelector (hc : c.PoliciesRegistered)
    {ns : String} (hns : ValidName ns) {label : Label}
    (hvalue : Slashless label.value) :
    id ∈ PolicyIdx.lookupPolicyByNSLabelSelector o c.configuredPolicies
        (nsLabel ns label) ↔
      ∃ policy selector, c.HasPolicy ns policy selector ∧
        label ∈ selector.matchLabel ∧ id = policy.id.string := by
  have hindex : ∀ policy selector, policy.pods = some selector →
      ((PolicyIdx.indexFunction policy).map
        (· PolicyIdx.policyPodNSLabelKey)).getD [] =
          selector.matchLabel.map (nsLabel policy.ns) := by
    intro policy selector hpods
    simp [PolicyIdx.indexFunction, hpods, PolicyIdx.policyPodNSLabelKey,
      PolicyIdx.policyPodLabelKey]
  rw [PolicyIdx.lookupPolicyByNSLabelSelector, mem_listNames]
  constructor
  · intro hid
    obtain ⟨policy, hlookup, hmem⟩ := hid
    obtain ⟨rfl, hvalid⟩ := hc id policy hlookup
    obtain ⟨selector, hpods, hselector⟩ := hvalid.pods
    rw [hindex policy selector hpods, List.mem_map] at hmem
    obtain ⟨label', hlabel', heq⟩ := hmem
    obtain ⟨hnsEq, rfl⟩ := (nsLabel_inj hvalid.ns hns
      (hselector.labels label' hlabel') hvalue).mp heq
    exact ⟨policy, selector, ⟨hlookup, hnsEq, hpods⟩, hlabel', rfl⟩
  · intro hid
    obtain ⟨policy, selector, hpolicy, hlabel, rfl⟩ := hid
    refine ⟨policy, hpolicy.lookup, ?_⟩
    rw [hindex policy selector hpolicy.pods, hpolicy.ns_eq]
    exact List.mem_map_of_mem hlabel

theorem lookup_copyPolicy (m : AList fun _ : String => Policy) (id k : String) :
    (copyPolicy c m id).lookup k =
      if k = id ∧ c.configuredPolicies.lookup id ≠ none then
        c.configuredPolicies.lookup k
      else m.lookup k := by
  rw [copyPolicy]
  cases hid : c.configuredPolicies.lookup id with
  | none => simp
  | some data =>
      by_cases hk : k = id
      · subst hk
        simp [hid]
      · simp [hk, AList.lookup_insert_ne hk]

theorem lookup_foldl_copyPolicy (ids : List String)
    (m : AList fun _ : String => Policy) (k : String) (v : Policy) :
    (ids.foldl (copyPolicy c) m).lookup k = some v ↔
      k ∈ ids ∧ c.configuredPolicies.lookup k = some v ∨
        (k ∈ ids → c.configuredPolicies.lookup k = none) ∧
          m.lookup k = some v := by
  induction ids generalizing m with
  | nil => simp
  | cons id ids ih =>
      rw [List.foldl_cons, ih, lookup_copyPolicy]
      by_cases hk : k = id
      · subst hk
        cases hsource : c.configuredPolicies.lookup k with
        | none => simp
        | some data => by_cases hmem : k ∈ ids <;> simp [hmem]
      · simp [hk]

theorem lookup_policiesByLabels (hc : c.PoliciesRegistered) {pod : Pod}
    (hpod : pod.Valid) :
    (policiesByLabels o c pod).lookup id = some policy ↔
      ∃ selector, c.HasPolicy pod.ns policy selector ∧ id = policy.id.string ∧
        ∃ label ∈ selector.matchLabel, label ∈ pod.label := by
  rw [policiesByLabels, lookup_foldl_copyPolicy, List.mem_flatMap]
  constructor
  · intro h
    rcases h with ⟨⟨label, hlabel, hid⟩, hlookup⟩ | ⟨_, hnone⟩
    · rw [mem_lookupPolicyByNSLabelSelector hc hpod.ns
        (hpod.labels label hlabel)] at hid
      obtain ⟨policy', selector, hpolicy, hmatch, rfl⟩ := hid
      have hsame := hpolicy.lookup
      rw [hlookup, Option.some.injEq] at hsame
      subst hsame
      exact ⟨selector, hpolicy, rfl, label, hmatch, hlabel⟩
    · cases hnone
  · intro h
    obtain ⟨selector, hpolicy, rfl, label, hmatch, hlabel⟩ := h
    refine Or.inl ⟨⟨label, hlabel, ?_⟩, hpolicy.lookup⟩
    rw [mem_lookupPolicyByNSLabelSelector hc hpod.ns (hpod.labels label hlabel)]
    exact ⟨policy, selector, hpolicy, hmatch, rfl⟩

end Candidates

/-! ## The loop over the candidates -/

variable {selector : LabelSelector}

section Loop

variable {o : RangeOrder String} {c : Cache}

theorem listPolicy_eq (hc : c.PodsRegistered) {pod : Pod}
    (hpod : c.HasPod policy.ns pod) (hvalid : policy.Valid)
    (hpods : policy.pods = some selector) (policies : List PolicyID) :
    (CodeSelects c policy.ns selector pod →
      listPolicy o c pod.id policies (policy.id.string, policy) =
        some (policies ++ [policy.id])) ∧
    (¬ CodeSelects c policy.ns selector pod →
      listPolicy o c pod.id policies (policy.id.string, policy) =
        some policies) := by
  have hselector : selector.Valid := by
    obtain ⟨selector', hpods', hselector'⟩ := hvalid.pods
    obtain rfl : selector = selector' :=
      Option.some.inj (hpods.symm.trans hpods')
    exact hselector'
  obtain ⟨ids, heq, hnodup, hids⟩ :=
    lookupPodsByNSLabelSelector_spec (o := o) hc hvalid.ns hselector
  have hmem : pod.id ∈ ids ↔ CodeSelects c policy.ns selector pod := by
    rw [hids]
    constructor
    · intro hex
      obtain ⟨pod', hpod', hcode, hid⟩ := hex
      rw [hpod.eq_of_string hpod' (by rw [hid])]
      exact hcode
    · exact fun hcode => ⟨pod, hpod, hcode, rfl⟩
  have hfilter : ids.filter (· = pod.id) =
      List.replicate (ids.count pod.id) pod.id := by
    exact List.filter_eq pod.id
  rw [listPolicy, hpods, heq]
  constructor
  · intro hcode
    have hone := List.count_eq_one_of_mem hnodup (hmem.mpr hcode)
    have hparts : unstringID policy.id.string = some (policy.ns, policy.name) :=
      unstringID_string hvalid.ns hvalid.name
    simp only [bind, Option.bind, hfilter, hone, List.replicate_one,
      List.foldlM_cons, List.foldlM_nil, hparts]
    rfl
  · intro hcode
    have hzero := List.count_eq_zero_of_not_mem (mt hmem.mp hcode)
    simp [hfilter, hzero]

theorem foldlM_listPolicy (hc : c.PodsRegistered) {pod : Pod}
    {entries : List (String × Policy)}
    (hentries : ∀ entry ∈ entries, entry.1 = entry.2.id.string ∧
      entry.2.Valid ∧ c.HasPod entry.2.ns pod) (policies : List PolicyID) :
    ∃ listed, entries.foldlM (listPolicy o c pod.id) policies =
        some (policies ++ listed) ∧
      (listed.map PolicyID.string).Sublist (entries.map Prod.fst) ∧
      ∀ id, id ∈ listed ↔ ∃ entry ∈ entries, id = entry.2.id ∧
        ∃ selector, entry.2.pods = some selector ∧
          CodeSelects c entry.2.ns selector pod := by
  induction entries generalizing policies with
  | nil => exact ⟨[], by simp, by simp, by simp⟩
  | cons entry entries ih =>
      obtain ⟨hid, hvalid, hpod⟩ := hentries entry List.mem_cons_self
      obtain ⟨selector, hpods, _⟩ := hvalid.pods
      have ih := ih fun e he => hentries e (List.mem_cons_of_mem entry he)
      have hentry : entry = (entry.2.id.string, entry.2) := Prod.ext hid rfl
      have hstep := listPolicy_eq (o := o) hc hpod hvalid hpods policies
      rw [← hentry] at hstep
      rw [List.foldlM_cons]
      by_cases hcode : CodeSelects c entry.2.ns selector pod
      · obtain ⟨listed, heq, hsub, hmem⟩ := ih (policies ++ [entry.2.id])
        refine ⟨entry.2.id :: listed, ?_, ?_, fun id => ?_⟩
        · rw [hstep.1 hcode]
          simpa using heq
        · rw [List.map_cons, List.map_cons, ← hid]
          exact hsub.cons_cons _
        · rw [List.mem_cons, hmem, List.exists_mem_cons_iff]
          simp [hpods, hcode]
      · obtain ⟨listed, heq, hsub, hmem⟩ := ih policies
        refine ⟨listed, ?_, hsub.cons entry.1, fun id => ?_⟩
        · rw [hstep.2 hcode]
          exact heq
        · rw [hmem, List.exists_mem_cons_iff]
          simp [hpods, hcode]

theorem CarriesLast.exists_label {labels : List Label} {pod : Pod}
    (h : CarriesLast labels pod) (hne : labels ≠ []) :
    ∃ label ∈ labels, label ∈ pod.label := by
  have hlast : labels.getLast hne ∈ labels.rtake 2 := by
    have hpos := List.length_pos_iff.mpr hne
    rw [List.rtake, ← List.getLast_drop (i := labels.length - 2) (by simp; omega)]
    exact List.getLast_mem _
  exact ⟨_, List.getLast_mem hne, h _ hlast⟩

theorem lookupPoliciesByPod_spec (o : RangeOrder String)
    (policyOrder : RangeOrder (String × Policy)) (hpods : c.PodsRegistered)
    (hpolicies : c.PoliciesRegistered) {pod : Pod} (hpod : c.HasPod pod.ns pod) :
    ∃ policies, lookupPoliciesByPod o policyOrder c pod.id = some policies ∧
      policies.Nodup ∧
      ∀ id, id ∈ policies ↔ ∃ policy selector,
        c.HasPolicy pod.ns policy selector ∧ id = policy.id ∧
          selector.matchLabel ≠ [] ∧ CodeSelects c pod.ns selector pod := by
  have hvalid := (hpods _ pod hpod.1).2
  have hentries : ∀ entry ∈ range policyOrder (policiesByLabels o c pod),
      ∃ selector, c.HasPolicy pod.ns entry.2 selector ∧
        entry.1 = entry.2.id.string ∧
        ∃ label ∈ selector.matchLabel, label ∈ pod.label := by
    intro entry hentry
    exact (lookup_policiesByLabels hpolicies hvalid).mp (mem_range.mp hentry)
  have hall : ∀ entry ∈ range policyOrder (policiesByLabels o c pod),
      entry.1 = entry.2.id.string ∧ entry.2.Valid ∧ c.HasPod entry.2.ns pod := by
    intro entry hentry
    obtain ⟨selector, hpolicy, hid, _⟩ := hentries entry hentry
    refine ⟨hid, (hpolicies _ _ hpolicy.lookup).2, ?_⟩
    rw [hpolicy.ns_eq]
    exact hpod
  obtain ⟨listed, heq, hsub, hmem⟩ :=
    foldlM_listPolicy (o := o) hpods hall []
  refine ⟨listed, ?_, ?_, fun id => ?_⟩
  · rw [lookupPoliciesByPod, hpod.1]
    simpa using heq
  · exact List.Nodup.of_map _
      ((range_keys_nodup policyOrder (policiesByLabels o c pod)).sublist hsub)
  · rw [hmem]
    constructor
    · intro hex
      obtain ⟨entry, hentry, rfl, selector, hpods, hcode⟩ := hex
      obtain ⟨selector', hpolicy, _, label, hlabel, _⟩ :=
        hentries entry hentry
      obtain rfl : selector = selector' :=
        Option.some.inj (hpods.symm.trans hpolicy.pods)
      rw [hpolicy.ns_eq] at hcode
      exact ⟨entry.2, selector, hpolicy, rfl, List.ne_nil_of_mem hlabel, hcode⟩
    · intro hex
      obtain ⟨policy, selector, hpolicy, rfl, hne, hcode⟩ := hex
      refine ⟨(policy.id.string, policy), mem_range.mpr ?_, rfl, selector,
        hpolicy.pods, ?_⟩
      · exact (lookup_policiesByLabels hpolicies hvalid).mpr
          ⟨selector, hpolicy, rfl, hcode.labels.exists_label hne⟩
      · change CodeSelects c policy.ns selector pod
        rw [hpolicy.ns_eq]
        exact hcode

end Loop

/-! ## Comparison with the meaning -/

/-- The policies with the selector are listed for the pods that it selects and
for no others, whatever pods there are. -/
def Assignable (selector : LabelSelector) : Prop :=
  if selector.matchLabel = [] then selector.Contradictory
  else Evaluable selector

section Verdict

variable {c : Cache} {pod : Pod}

/-- The policies that select a pod are listed once each, and no others, just
if each policy is found for the pod when it selects it. -/
theorem lookupPoliciesByPod_exact_iff_codeSelects (o : RangeOrder String)
    (policyOrder : RangeOrder (String × Policy))
    (hpods : c.PodsRegistered) (hpolicies : c.PoliciesRegistered)
    (hpod : c.HasPod pod.ns pod) :
    (∃ policies, lookupPoliciesByPod o policyOrder c pod.id = some policies ∧
      policies.Nodup ∧
      ∀ id, id ∈ policies ↔ ∃ policy selector,
        c.HasPolicy pod.ns policy selector ∧ selector.Selects pod.label ∧
          id = policy.id) ↔
    ∀ policy selector, c.HasPolicy pod.ns policy selector →
      (selector.matchLabel ≠ [] ∧ CodeSelects c pod.ns selector pod ↔
        selector.Selects pod.label) := by
  obtain ⟨policies, heq, hnodup, hmem⟩ := lookupPoliciesByPod_spec o
    policyOrder hpods hpolicies hpod
  constructor
  · intro h policy selector hpolicy
    obtain ⟨policies', heq', _, hmem'⟩ := h
    obtain rfl : policies' = policies :=
      Option.some.inj (heq'.symm.trans heq)
    -- The identifier determines the policy and its selector.
    have hself : ∀ {policy' selector'}, c.HasPolicy pod.ns policy' selector' →
        policy.id = policy'.id → selector' = selector := by
      intro policy' selector' hpolicy' hid
      have hlookup := hpolicy.lookup
      rw [hid, hpolicy'.lookup, Option.some.injEq] at hlookup
      subst hlookup
      exact Option.some.inj (hpolicy'.pods.symm.trans hpolicy.pods)
    constructor
    · intro hcode
      obtain ⟨policy', selector', hpolicy', hsel, hid⟩ := (hmem' _).mp
        ((hmem policy.id).mpr ⟨policy, selector, hpolicy, rfl, hcode⟩)
      rw [← hself hpolicy' hid]
      exact hsel
    · intro hsel
      obtain ⟨policy', selector', hpolicy', hid, hcode⟩ := (hmem _).mp
        ((hmem' policy.id).mpr ⟨policy, selector, hpolicy, hsel, rfl⟩)
      rw [← hself hpolicy' hid]
      exact hcode
  · intro h
    refine ⟨policies, heq, hnodup, fun id => ?_⟩
    rw [hmem]
    constructor
    · intro hex
      obtain ⟨policy, selector, hpolicy, hid, hcode⟩ := hex
      exact ⟨policy, selector, hpolicy, (h _ _ hpolicy).mp hcode, hid⟩
    · intro hex
      obtain ⟨policy, selector, hpolicy, hsel, hid⟩ := hex
      exact ⟨policy, selector, hpolicy, hid, (h _ _ hpolicy).mpr hsel⟩

theorem Assignable.codeSelects_iff (h : Assignable selector)
    (hpod : c.HasPod pod.ns pod) :
    (selector.matchLabel ≠ [] ∧ CodeSelects c pod.ns selector pod) ↔
      selector.Selects pod.label := by
  rw [Assignable] at h
  split_ifs at h with hnil
  · exact iff_of_false (fun hcode => hcode.1 hnil)
      fun hsel => hsel.not_contradictory h
  · rw [h.codeSelects_iff hpod, and_iff_right hnil]

def selectorPolicy (selector : LabelSelector) : Policy :=
  ⟨"policy", "default", some selector, .ingress, [], []⟩

def labelledWith (selector : LabelSelector) (labels labels' : List Label) :
    Cache :=
  { labelled labels labels' with
    configuredPolicies := AList.insert (selectorPolicy selector).id.string
      (selectorPolicy selector) ∅ }

theorem labelledWith_lookup {labels labels' : List Label}
    (h : (labelledWith selector labels labels').configuredPolicies.lookup id =
      some policy) :
    id = policy.id.string ∧ policy = selectorPolicy selector := by
  rcases lookup_insert_eq_some h with ⟨rfl, rfl⟩ | ⟨_, hnone⟩
  · exact ⟨rfl, rfl⟩
  · cases hnone

theorem labelledWith_registered (hvalid : selector.Valid)
    (labels labels' : List Label) :
    (labelledWith selector labels labels').PoliciesRegistered := by
  have hname : ValidName "default" ∧ ValidName "policy" := by decide
  intro id policy hlookup
  obtain ⟨hid, rfl⟩ := labelledWith_lookup hlookup
  exact ⟨hid, hname.1, hname.2, selector, rfl, hvalid⟩

theorem assignable_of_labelled (hvalid : selector.Valid)
    (h : ∀ labels labels', ValidLabels labels → ValidLabels labels' →
      (selector.matchLabel ≠ [] ∧ CodeSelects (labelledWith selector labels
        labels') "default" selector (labelledPod "a" labels) ↔
          selector.Selects labels)) : Assignable selector := by
  rw [Assignable]
  split_ifs with hnil
  · by_contra hnot
    obtain ⟨labels, hlabels, hselects⟩ :=
      LabelSelector.exists_selects hvalid hnot
    exact ((h labels labels hlabels hlabels).mpr hselects).1 hnil
  · refine evaluable_of_labelled hvalid fun labels labels' hlabels hlabels' => ?_
    have hpods : (labelled labels labels').HasPod =
        (labelledWith selector labels labels').HasPod := rfl
    rw [codeSelects_congr hpods, ← h labels labels' hlabels hlabels',
      and_iff_right hnil]

/-- Each pod gets just the policies that select it, once each and whatever pods
and policies there are, if the selectors of the policies are assignable, and
not with any other selector. -/
theorem lookupPoliciesByPod_exact_iff (selectors : Set LabelSelector)
    (hvalid : ∀ selector ∈ selectors, selector.Valid) :
    (∀ (o : RangeOrder String) (policyOrder : RangeOrder (String × Policy))
      (c : Cache), c.PodsRegistered → c.PoliciesRegistered →
      (∀ ns policy selector, c.HasPolicy ns policy selector →
        selector ∈ selectors) →
      ∀ pod, c.HasPod pod.ns pod →
        ∃ policies, lookupPoliciesByPod o policyOrder c pod.id =
            some policies ∧ policies.Nodup ∧
          ∀ id, id ∈ policies ↔ ∃ policy selector,
            c.HasPolicy pod.ns policy selector ∧
              selector.Selects pod.label ∧ id = policy.id) ↔
    ∀ selector ∈ selectors, Assignable selector := by
  constructor
  · intro h selector hselector
    have hvalid := hvalid selector hselector
    refine assignable_of_labelled hvalid fun labels labels' hlabels hlabels' => ?_
    have hpods : (labelledWith selector labels labels').PodsRegistered :=
      labelled_registered hlabels hlabels'
    have hpolicies := labelledWith_registered hvalid labels labels'
    refine (lookupPoliciesByPod_exact_iff_codeSelects .insertion .insertion
      hpods hpolicies labelled_hasPod).mp (h .insertion .insertion _ hpods
        hpolicies ?_ _ labelled_hasPod) (selectorPolicy selector) selector
        ⟨AList.lookup_insert _, rfl, rfl⟩
    intro ns policy selector' hpolicy
    obtain ⟨_, rfl⟩ := labelledWith_lookup hpolicy.lookup
    exact Option.some.inj hpolicy.pods ▸ hselector
  · intro h o policyOrder c hpods hpolicies hselectors pod hpod
    refine (lookupPoliciesByPod_exact_iff_codeSelects o policyOrder hpods
      hpolicies hpod).mpr fun policy selector hpolicy => ?_
    exact (h selector (hselectors _ policy selector hpolicy)).codeSelects_iff hpod

end Verdict

/-- One of two pods has the labels of the policy. -/
theorem lookupPoliciesByPod_exact_iff_webShop : Assignable webShop ∧
    ∃ policies, lookupPoliciesByPod .insertion .insertion
        (labelledWith webShop shopPod.label blogPod.label)
        (labelledPod "a" shopPod.label).id = some policies ∧ policies.Nodup ∧
      ∀ id, id ∈ policies ↔ ∃ policy selector,
        (labelledWith webShop shopPod.label blogPod.label).HasPolicy "default"
          policy selector ∧ selector.Selects shopPod.label ∧ id = policy.id := by
  have hassignable : ∀ selector ∈ ({webShop} : Set LabelSelector),
      Assignable selector := by
    rintro selector rfl
    exact webShop_evaluable
  have hvalid : ∀ selector ∈ ({webShop} : Set LabelSelector), selector.Valid := by
    rintro selector rfl
    exact webShop_valid
  have hpods : (labelledWith webShop shopPod.label
      blogPod.label).PodsRegistered :=
    @labelled_registered shopPod.label blogPod.label (by decide) (by decide)
  refine ⟨hassignable webShop rfl, (lookupPoliciesByPod_exact_iff {webShop}
    hvalid).mpr hassignable .insertion .insertion _ hpods
      (labelledWith_registered webShop_valid _ _) ?_ _ labelled_hasPod⟩
  intro ns policy selector hpolicy
  obtain ⟨_, rfl⟩ := labelledWith_lookup hpolicy.lookup
  exact (Option.some.inj hpolicy.pods).symm

/-! ## A policy for all pods -/

def denyAll : Policy :=
  ⟨"deny-all", "default", some ⟨[], []⟩, .ingress, [], []⟩

def denyAllCache : Cache :=
  { twoPods with
    configuredPolicies := AList.insert denyAll.id.string denyAll ∅ }

/-- The policy selects the pod but is not listed. -/
theorem lookupPoliciesByPod_misses_denyAll :
    denyAllCache.HasPod "default" shopPod ∧
      denyAllCache.HasPolicy "default" denyAll ⟨[], []⟩ ∧
      LabelSelector.Selects ⟨[], []⟩ shopPod.label ∧
      lookupPoliciesByPod .insertion .insertion denyAllCache shopPod.id =
        some [] :=
  ⟨⟨by decide +kernel, rfl⟩, ⟨by decide +kernel, rfl, rfl⟩,
    ⟨by simp, by simp⟩, by decide +kernel⟩

end ContivVPP.PolicyCache
