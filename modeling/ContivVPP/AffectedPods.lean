import ContivVPP.PolicyProcessorEvents
import ContivVPP.PolicyViews

/-!
# Pods that a notification affects

Which pods the processor handles a notification for, in terms of the pods and
policies that the cache holds.
-/

namespace ContivVPP.Processor

open GoMap K8s Net Configurator PolicyCache PartialLoops

/-! ## Affected pods -/

def Selected (c : Cache) (policy : Policy) (id : PodID) : Prop :=
  ∃ selector pod, policy.pods = some selector ∧ c.HasPod policy.ns pod ∧
    CodeSelects c policy.ns selector pod ∧ id = pod.id

def PeerMatches (pod : Pod) (policy : Policy) : Prop :=
  ∃ peer ∈ (policy.ingressRule ++ policy.egressRule).flatMap Rule.peer,
    matchesPeer pod policy.ns peer = true

def Installed (c : Cache) (policy : Policy) : Prop :=
  ∃ key, c.configuredPolicies.lookup key = some policy

def SelectedForPeer (c : Cache) (peers : List Pod) (id : PodID) : Prop :=
  ∃ policy, (Installed c policy ∧ ∃ peer ∈ peers, PeerMatches peer policy) ∧
    Selected c policy id

def HasHostIP (hostNetwork : IPNet) (ipAddress : Pod → String) (c : Cache)
    (id : PodID) : Prop :=
  ∃ data, c.configuredPods.lookup id.string = some data ∧
    hostNetwork.contains ((parseIP (ipAddress data)).getD []) = true

def lastIPAddress (podIPAddressMap : PodIPAddressMap) (pod : Pod) : String :=
  (podIPAddressMap.lookup pod.id.string).getD ""

def Affects (hostNetwork : IPNet) (podIPAddressMap : PodIPAddressMap)
    (c : Cache) (id : PodID) : Notification → Prop
  | .delPod pod => pod.ns ≠ "kube-system" ∧ SelectedForPeer c [pod] id ∧
      HasHostIP hostNetwork (lastIPAddress podIPAddressMap) c id
  | .updatePod oldPod newPod =>
      newPod.ns ≠ "kube-system" ∧ newPod.ipAddress ≠ "" ∧
      (id = newPod.id ∨ SelectedForPeer c [oldPod, newPod] id) ∧
      HasHostIP hostNetwork Pod.ipAddress c id
  | .addPolicy policy =>
      Selected c policy id ∧ HasHostIP hostNetwork Pod.ipAddress c id
  | .delPolicy policy =>
      Selected c policy id ∧ HasHostIP hostNetwork Pod.ipAddress c id
  | .updatePolicy oldPolicy newPolicy =>
      (Selected c oldPolicy id ∨ Selected c newPolicy id) ∧
      HasHostIP hostNetwork Pod.ipAddress c id
  | .resync _ =>
      ∃ pod, c.configuredPods.lookup pod.id.string = some pod ∧ id = pod.id
  | .addPod _ => False
  | .addNamespace _ => False
  | .delNamespace _ => False
  | .updateNamespace _ _ => False

def NotificationProper : Notification → Prop
  | .updatePod _ newPod => newPod.Valid
  | .addPolicy policy => policy.Valid
  | .delPolicy policy => policy.Valid
  | .updatePolicy oldPolicy newPolicy => oldPolicy.Valid ∧ newPolicy.Valid
  | _ => True

/-! ## The policies that match a pod -/

section Matching

variable {pod : Pod} {policies dataPolicies : List Policy}
  {policy : Policy} {K : Policy → Prop}

def Distinct (K : Policy → Prop) : Prop :=
  ∀ p q, K p → K q → p.id.string = q.id.string → p = q

section

variable (hK : Distinct K) (hpolicies : ∀ p ∈ policies, K p)
include hK hpolicies

theorem mem_addOnce (hpolicy : K policy) {q : Policy} :
    q ∈ addOnce policies policy ↔ q ∈ policies ∨ q = policy := by
  unfold addOnce
  split_ifs with hnew
  · simp
  · -- A policy with the identifier is there, and so this one is.
    simp only [List.all_eq_true, bne_iff_ne, not_forall, not_not] at hnew
    obtain ⟨p, hp, hid⟩ := hnew
    rw [hK p policy (hpolicies p hp) hpolicy hid] at hp
    refine (or_iff_left_of_imp ?_).symm
    intro hq
    rwa [hq]

theorem mem_addMatching (hpolicy : K policy) {q : Policy} :
    q ∈ addMatching pod policies policy ↔
      q ∈ policies ∨ q = policy ∧ PeerMatches pod policy := by
  unfold addMatching PeerMatches
  generalize (policy.ingressRule ++ policy.egressRule).flatMap Rule.peer = peers
  induction peers generalizing policies with
  | nil => simp
  | cons peer peers ih =>
      rw [List.foldl_cons, List.exists_mem_cons_iff]
      split_ifs with hmatch
      · have honce : ∀ {p}, p ∈ addOnce policies policy ↔
            p ∈ policies ∨ p = policy := mem_addOnce hK hpolicies hpolicy
        have hall : ∀ p ∈ addOnce policies policy, K p := by
          intro p hp
          rcases honce.mp hp with hp | hp
          · exact hpolicies p hp
          · rwa [hp]
        rw [ih hall, honce]
        simp only [hmatch, true_or, and_true]
        tauto
      · rw [ih hpolicies]
        simp [hmatch]

theorem mem_foldl_addMatching (hdata : ∀ p ∈ dataPolicies, K p) {q : Policy} :
    q ∈ dataPolicies.foldl (addMatching pod) policies ↔
      q ∈ policies ∨ q ∈ dataPolicies ∧ PeerMatches pod q := by
  induction dataPolicies generalizing policies with
  | nil => simp
  | cons policy dataPolicies ih =>
      have hpolicy := hdata policy List.mem_cons_self
      have hmem : ∀ {p}, p ∈ addMatching pod policies policy ↔
          p ∈ policies ∨ p = policy ∧ PeerMatches pod policy :=
        mem_addMatching hK hpolicies hpolicy
      have hall : ∀ p ∈ addMatching pod policies policy, K p := by
        intro p hp
        rcases hmem.mp hp with hp | hp
        · exact hpolicies p hp
        · rwa [hp.1]
      rw [List.foldl_cons, ih hall
        fun p hp => hdata p (List.mem_cons_of_mem policy hp), hmem,
        List.mem_cons, or_assoc]
      refine or_congr_right ?_
      constructor
      · intro hq
        rcases hq with ⟨rfl, hmatch⟩ | ⟨hq, hmatch⟩
        · exact ⟨Or.inl rfl, hmatch⟩
        · exact ⟨Or.inr hq, hmatch⟩
      · intro hq
        rcases hq with ⟨rfl | hq, hmatch⟩
        · exact Or.inl ⟨rfl, hmatch⟩
        · exact Or.inr ⟨hq, hmatch⟩

end

end Matching

/-! ## The functions of the processor -/

variable {notification : Notification}

section Handlers

variable {o : RangeOrder String} {p : RangeOrder (String × Policy)}
  {c : Cache} {hostNetwork : IPNet} {id : PodID} {pods ids : List PodID}

theorem mem_hostPods {address : Option Pod → Option String}
    {ipAddress : Pod → String}
    (haddress : ∀ data, address (some data) = some (ipAddress data))
    (hmissing : ∀ pod ∈ pods, c.configuredPods.lookup pod.string = none →
      address none = none)
    (h : hostPods (.of o p c) hostNetwork address pods = some ids) :
    id ∈ ids ↔ id ∈ pods ∧ HasHostIP hostNetwork ipAddress c id := by
  simp only [hostPods, bind_eq_some_iff, pure_eq_some_iff] at h
  obtain ⟨onHost, hmapM, rfl⟩ := h
  rw [List.reduceOption_mem_iff, mem_mapM_iff hmapM]
  have hlookup : ∀ pod, (PolicyCacheAPI.of o p c).lookupPod pod =
      (true, c.configuredPods.lookup pod.string) := fun _ => rfl
  constructor
  · intro hex
    obtain ⟨pod, hpod, heq⟩ := hex
    rw [hlookup] at heq
    cases hdata : c.configuredPods.lookup pod.string with
    | none => simp [hdata, hmissing pod hpod hdata] at heq
    | some data =>
        simp only [hdata, haddress, Option.map_some, Option.some.injEq,
          Option.ite_none_right_eq_some] at heq
        obtain ⟨hcontains, rfl⟩ := heq
        exact ⟨hpod, data, hdata, hcontains⟩
  · intro hid
    obtain ⟨data, hdata, hcontains⟩ := hid.2
    refine ⟨id, hid.1, ?_⟩
    rw [hlookup, hdata]
    simp only [haddress, Option.map_some, hcontains, if_true]

theorem mem_hostPods_ipAddress
    (h : hostPods (.of o p c) hostNetwork (Option.map Pod.ipAddress) pods =
      some ids) :
    id ∈ ids ↔ id ∈ pods ∧ HasHostIP hostNetwork Pod.ipAddress c id :=
  mem_hostPods (fun _ => rfl) (fun _ _ _ => rfl) h

theorem mem_uniquePods (h : uniquePods o pods = some ids)
    (hvalid : ∀ pod ∈ pods, ValidName pod.ns ∧ ValidName pod.name) :
    id ∈ ids ↔ id ∈ pods := by
  rw [mem_mapM_iff h]
  simp only [mem_removeDuplicates, List.mem_map]
  constructor
  · intro hex
    obtain ⟨text, ⟨pod, hpod, rfl⟩, heq⟩ := hex
    obtain ⟨hns, hname⟩ := hvalid pod hpod
    rw [PodID.string, unstringID_string hns hname, Option.map_some,
      Option.some.injEq] at heq
    rwa [← heq]
  · intro hid
    obtain ⟨hns, hname⟩ := hvalid id hid
    exact ⟨id.string, ⟨id, hid, rfl⟩, by
      rw [PodID.string, unstringID_string hns hname]
      rfl⟩

theorem mem_lookupPods (hpods : c.PodsRegistered) {policy : Policy}
    (hpolicy : policy.Valid)
    (h : (PolicyCacheAPI.of o p c).lookupPodsByNSLabelSelector policy.ns
      policy.pods = some ids) : id ∈ ids ↔ Selected c policy id := by
  obtain ⟨selector, hselector, hvalid⟩ := hpolicy.pods
  obtain ⟨ids', hids', _, hmem⟩ := lookupPodsByNSLabelSelector_spec (o := o)
    hpods hpolicy.ns hvalid
  have h : lookupPodsByNSLabelSelector o c policy.ns policy.pods = some ids := h
  rw [hselector, hids', Option.some.injEq] at h
  subst h
  rw [hmem]
  constructor
  · intro hex
    obtain ⟨pod, hpod, hcode, hid⟩ := hex
    exact ⟨selector, pod, hselector, hpod, hcode, hid⟩
  · intro hex
    obtain ⟨selector', pod, hselector', hpod, hcode, hid⟩ := hex
    obtain rfl := Option.some.inj (hselector.symm.trans hselector')
    exact ⟨pod, hpod, hcode, hid⟩

theorem mem_podsOfPolicies (hpods : c.PodsRegistered)
    {policies : List Policy} (hpolicies : ∀ q ∈ policies, q.Valid)
    (h : podsOfPolicies (.of o p c) policies = some ids) :
    id ∈ ids ↔ ∃ policy ∈ policies, Selected c policy id := by
  simp only [podsOfPolicies, bind_eq_some_iff, pure_eq_some_iff] at h
  obtain ⟨lists, hlists, rfl⟩ := h
  rw [List.mem_flatten]
  constructor
  · intro hex
    obtain ⟨list, hlist, hid⟩ := hex
    obtain ⟨policy, hpolicy, heq⟩ := (mem_mapM_iff hlists).mp hlist
    exact ⟨policy, hpolicy,
      (mem_lookupPods hpods (hpolicies policy hpolicy) heq).mp hid⟩
  · intro hex
    obtain ⟨policy, hpolicy, hid⟩ := hex
    obtain ⟨list, hlist, heq⟩ := exists_of_mapM hlists hpolicy
    exact ⟨list, hlist,
      (mem_lookupPods hpods (hpolicies policy hpolicy) heq).mpr hid⟩

theorem mem_installedPolicies (hpolicies : c.PoliciesRegistered)
    {dataPolicies : List Policy}
    (h : installedPolicies (.of o p c) = some dataPolicies)
    {policy : Policy} :
    policy ∈ dataPolicies ↔ Installed c policy := by
  simp only [installedPolicies, bind_eq_some_iff, pure_eq_some_iff] at h
  obtain ⟨policyIDs, hids, found, hfound, rfl⟩ := h
  have hlookup : ∀ policyID, (PolicyCacheAPI.of o p c).lookupPolicy policyID =
      (true, c.configuredPolicies.lookup policyID.string) := fun _ => rfl
  rw [List.reduceOption_mem_iff, mem_mapM_iff hfound]
  constructor
  · intro hex
    obtain ⟨policyID, _, heq⟩ := hex
    rw [hlookup] at heq
    refine ⟨policyID.string, ?_⟩
    cases hdata : c.configuredPolicies.lookup policyID.string with
    | none => simp [hdata] at heq
    | some data => simpa [hdata] using heq
  · intro hex
    obtain ⟨key, hkey⟩ := hex
    obtain ⟨rfl, hvalid⟩ := hpolicies key policy hkey
    refine ⟨policy.id, ?_, by rw [hlookup, hkey]⟩
    rw [mem_mapM_iff hids]
    refine ⟨policy.id.string, ?_, ?_⟩
    · rw [RangeOrder.mem_order, ← AList.mem_keys, ← AList.lookup_isSome, hkey]
      rfl
    · rw [PolicyID.string]
      exact congrArg _ (unstringID_string hvalid.ns hvalid.name)

theorem Selected.validName (hpods : c.PodsRegistered) {policy : Policy}
    (h : Selected c policy id) : ValidName id.ns ∧ ValidName id.name := by
  obtain ⟨_, pod, _, hpod, _, rfl⟩ := h
  have hvalid := (hpods _ pod hpod.1).2
  exact ⟨hvalid.ns, hvalid.name⟩

theorem distinct_installed (hpolicies : c.PoliciesRegistered) :
    Distinct (Installed c) := by
  intro q q' hq hq' hid
  obtain ⟨key, hkey⟩ := hq
  obtain ⟨key', hkey'⟩ := hq'
  rw [(hpolicies key q hkey).1, hid, ← (hpolicies key' q' hkey').1, hkey'] at hkey
  exact (Option.some.inj hkey).symm

theorem mem_selectedForPeer (hpods : c.PodsRegistered)
    (hpolicies : c.PoliciesRegistered) {dataPolicies : List Policy}
    (hdata : installedPolicies (.of o p c) = some dataPolicies)
    (peers : List Pod)
    (h : podsOfPolicies (.of o p c) (peers.foldl (fun policies pod =>
      dataPolicies.foldl (addMatching pod) policies) []) = some ids) :
    id ∈ ids ↔ SelectedForPeer c peers id := by
  have hinstalled : ∀ {q}, q ∈ dataPolicies ↔ Installed c q :=
    mem_installedPolicies hpolicies hdata
  have hmatching : ∀ {q}, q ∈ peers.foldl (fun policies pod =>
      dataPolicies.foldl (addMatching pod) policies) [] ↔
      Installed c q ∧ ∃ peer ∈ peers, PeerMatches peer q := by
    clear h
    induction peers using List.reverseRecOn with
    | nil => simp
    | append_singleton peers peer ih =>
        intro q
        rw [List.foldl_append, List.foldl_cons, List.foldl_nil,
          mem_foldl_addMatching (distinct_installed hpolicies)
            (fun q hq => (ih.mp hq).1) (fun q hq => hinstalled.mp hq),
          ih, hinstalled, ← and_or_left]
        simp [or_and_right, exists_or]
  have hvalid : ∀ q ∈ peers.foldl (fun policies pod =>
      dataPolicies.foldl (addMatching pod) policies) [], q.Valid := by
    intro q hq
    obtain ⟨⟨key, hkey⟩, _⟩ := hmatching.mp hq
    exact (hpolicies key q hkey).2
  rw [mem_podsOfPolicies hpods hvalid h]
  simp only [hmatching, SelectedForPeer]

theorem SelectedForPeer.validName (hpods : c.PodsRegistered)
    {peers : List Pod} (h : SelectedForPeer c peers id) :
    ValidName id.ns ∧ ValidName id.name := by
  obtain ⟨_, _, hselected⟩ := h
  exact hselected.validName hpods

variable {podIPAddressMap podIPAddressMap' : PodIPAddressMap}

theorem mem_delPod (hpods : c.PodsRegistered)
    (hpolicies : c.PoliciesRegistered) {pod : Pod}
    (h : delPod o (.of o p c) hostNetwork podIPAddressMap pod = some ids) :
    id ∈ ids ↔ Affects hostNetwork podIPAddressMap c id (.delPod pod) := by
  unfold delPod at h
  split_ifs at h with hkube
  · cases h
    simp [Affects, hkube]
  · simp only [bind_eq_some_iff] at h
    obtain ⟨dataPolicies, hdata, found, hfound, unique, hunique, hhost⟩ := h
    have hmem : ∀ {x}, x ∈ found ↔ SelectedForPeer c [pod] x :=
      mem_selectedForPeer hpods hpolicies hdata [pod] hfound
    have hmem' : ∀ {x}, x ∈ unique ↔ SelectedForPeer c [pod] x := by
      intro x
      rw [mem_uniquePods hunique fun x hx => (hmem.mp hx).validName hpods, hmem]
    have hknown : ∀ x ∈ unique, c.configuredPods.lookup x.string ≠ none := by
      intro x hx
      obtain ⟨_, _, _, data, _, hdata, _, rfl⟩ := hmem'.mp hx
      simp [hdata.1]
    have hhost' : ∀ {x}, x ∈ ids ↔ x ∈ unique ∧
        HasHostIP hostNetwork (lastIPAddress podIPAddressMap) c x :=
      mem_hostPods (fun _ => rfl)
        (fun x hx hnone => absurd hnone (hknown x hx)) hhost
    rw [hhost', hmem']
    exact (and_iff_right hkube).symm

theorem mem_updatePod (hpods : c.PodsRegistered)
    (hpolicies : c.PoliciesRegistered) {oldPod newPod : Pod}
    (hnew : newPod.Valid)
    (h : updatePod o (.of o p c) hostNetwork podIPAddressMap oldPod newPod =
      some (podIPAddressMap', ids)) :
    id ∈ ids ↔
      Affects hostNetwork podIPAddressMap c id (.updatePod oldPod newPod) := by
  unfold updatePod at h
  split_ifs at h with hkube hip
  · cases h
    simp [Affects, hkube]
  · cases h
    simp [Affects, hip]
  · simp only [bind_eq_some_iff, pure_eq_some_iff, Prod.mk.injEq] at h
    obtain ⟨dataPolicies, hdata, found, hfound, unique, hunique, ids', hhost,
      rfl, rfl⟩ := h
    have hmem : ∀ {x}, x ∈ found ↔ SelectedForPeer c [oldPod, newPod] x :=
      mem_selectedForPeer hpods hpolicies hdata [oldPod, newPod] hfound
    have hvalid : ∀ x ∈ newPod.id :: found,
        ValidName x.ns ∧ ValidName x.name := by
      intro x hx
      rcases List.mem_cons.mp hx with rfl | hx
      · exact ⟨hnew.ns, hnew.name⟩
      · exact (hmem.mp hx).validName hpods
    rw [mem_hostPods_ipAddress hhost, mem_uniquePods hunique hvalid,
      List.mem_cons, hmem]
    simp [Affects, hkube, hip]

theorem mem_policyPods (hpods : c.PodsRegistered) {policy : Policy}
    (hpolicy : policy.Valid)
    (h : addPolicy (.of o p c) hostNetwork policy = some ids) :
    id ∈ ids ↔ Selected c policy id ∧
      HasHostIP hostNetwork Pod.ipAddress c id := by
  simp only [addPolicy, bind_eq_some_iff] at h
  obtain ⟨found, hfound, hhost⟩ := h
  rw [mem_hostPods_ipAddress hhost, mem_lookupPods hpods hpolicy hfound]

theorem mem_updatePolicy (hpods : c.PodsRegistered)
    {oldPolicy newPolicy : Policy} (hold : oldPolicy.Valid)
    (hnew : newPolicy.Valid)
    (h : updatePolicy o (.of o p c) hostNetwork oldPolicy newPolicy = some ids) :
    id ∈ ids ↔ Affects hostNetwork podIPAddressMap c id
      (.updatePolicy oldPolicy newPolicy) := by
  simp only [updatePolicy, bind_eq_some_iff] at h
  obtain ⟨oldPods, hold', newPods, hnew', unique, hunique, hhost⟩ := h
  have hmemOld : ∀ {x}, x ∈ oldPods ↔ Selected c oldPolicy x :=
    mem_lookupPods hpods hold hold'
  have hmemNew : ∀ {x}, x ∈ newPods ↔ Selected c newPolicy x :=
    mem_lookupPods hpods hnew hnew'
  have hvalid : ∀ x ∈ oldPods ++ newPods, ValidName x.ns ∧ ValidName x.name := by
    intro x hx
    rcases List.mem_append.mp hx with hx | hx
    · exact (hmemOld.mp hx).validName hpods
    · exact (hmemNew.mp hx).validName hpods
  rw [mem_hostPods_ipAddress hhost, mem_uniquePods hunique hvalid,
    List.mem_append, hmemOld, hmemNew]
  rfl

theorem eq_some_of_map_pair {result : Option (List PodID)}
    (h : result.map (podIPAddressMap, ·) = some (podIPAddressMap', ids)) :
    result = some ids := by
  obtain ⟨ids', hids', heq⟩ := Option.map_eq_some_iff.mp h
  rw [hids', (Prod.mk.inj heq).2]

theorem mem_handle (hpods : c.PodsRegistered) (hpolicies : c.PoliciesRegistered)
    (hproper : NotificationProper notification)
    (h : handle o (.of o p c) hostNetwork podIPAddressMap notification =
      some (podIPAddressMap', ids)) :
    id ∈ ids ↔ Affects hostNetwork podIPAddressMap c id notification := by
  cases notification with
  | addPod | addNamespace | delNamespace | updateNamespace =>
      cases h
      simp [Affects]
  | resync data =>
      obtain ⟨all, hall, _, hmem⟩ := listAllPods_spec o hpods
      obtain rfl := Option.some.inj (hall.symm.trans (eq_some_of_map_pair h))
      exact hmem id
  | delPod pod =>
      exact mem_delPod hpods hpolicies (eq_some_of_map_pair h)
  | updatePod oldPod newPod => exact mem_updatePod hpods hpolicies hproper h
  | addPolicy policy =>
      exact mem_policyPods hpods hproper (eq_some_of_map_pair h)
  | delPolicy policy =>
      exact mem_policyPods hpods hproper (eq_some_of_map_pair h)
  | updatePolicy oldPolicy newPolicy =>
      exact mem_updatePolicy hpods hproper.1 hproper.2 (eq_some_of_map_pair h)

theorem affects_map (h : ∀ pod, notification ≠ .delPod pod) :
    Affects hostNetwork podIPAddressMap c id notification ↔
      Affects hostNetwork podIPAddressMap' c id notification := by
  cases notification with
  | delPod pod => exact absurd rfl (h pod)
  | _ => rfl

end Handlers

/-! ## Caches with the same objects -/

section Congr

variable {ds : Datastore} {c c' : Cache} {hostNetwork : IPNet}
  {podIPAddressMap : PodIPAddressMap} {id : PodID}

section

variable (h : Mirrored ds c) (h' : Mirrored ds c')
include h h'

theorem selected_congr {policy : Policy} :
    Selected c policy id ↔ Selected c' policy id := by
  simp only [Selected, h.hasPod_eq h', codeSelects_congr (h.hasPod_eq h')]

theorem hasHostIP_congr {ipAddress : Pod → String} :
    HasHostIP hostNetwork ipAddress c id ↔
      HasHostIP hostNetwork ipAddress c' id := by
  simp only [HasHostIP, h.lookup_pods h']

theorem selectedForPeer_congr {peers : List Pod} :
    SelectedForPeer c peers id ↔ SelectedForPeer c' peers id := by
  simp only [SelectedForPeer, Installed, h.lookup_policies h',
    selected_congr h h']

theorem affects_congr : Affects hostNetwork podIPAddressMap c id notification ↔
      Affects hostNetwork podIPAddressMap c' id notification := by
  cases notification <;>
    simp only [Affects, selected_congr h h', selectedForPeer_congr h h',
      hasHostIP_congr h h', h.lookup_pods h']

end

end Congr

end ContivVPP.Processor
