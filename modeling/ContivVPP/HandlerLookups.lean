import ContivVPP.MissingPods
import ContivVPP.ProcessorResync
import ContivVPP.ProcessorRun

/-!
# Lookups of the policy processor

`LookupPod` and `LookupPolicy` of the cache report everything as found, and
return no data for what is not there.  What the handlers of the processor look
up has been listed by the cache before, so that the data are there, unless an
update is announced of a pod which is not in the cache.
-/

namespace ContivVPP.PolicyCache

open K8s GoMap PartialLoops

/-- Pods and policies are registered under their identifiers. -/
structure Cache.Named (c : Cache) : Prop where
  pods : ∀ id pod, c.configuredPods.lookup id = some pod →
    id = pod.id.string ∧ ValidName pod.ns ∧ ValidName pod.name
  policies : ∀ id policy, c.configuredPolicies.lookup id = some policy →
    id = policy.id.string ∧ ValidName policy.ns ∧ ValidName policy.name

def Cache.KnowsPod (c : Cache) (id : PodID) : Prop :=
  c.configuredPods.lookup id.string ≠ none

def Cache.KnowsPolicy (c : Cache) (id : PolicyID) : Prop :=
  c.configuredPolicies.lookup id.string ≠ none

def Cache.PodKeys (c : Cache) (texts : List String) : Prop :=
  ∀ text ∈ texts, c.configuredPods.lookup text ≠ none

section Keys

variable {o : RangeOrder String} {c : Cache} {ns : String}

theorem podKeys_listNames {index : Pod → String → List String}
    {field value : String} :
    c.PodKeys (listNames o index c.configuredPods field value) := by
  intro text htext
  obtain ⟨pod, hpod, _⟩ := mem_listNames.mp htext
  simp [hpod]

theorem podKeys_intersectNeighbours {prevPodSet newPodSet : List String}
    (hnew : c.PodKeys newPodSet) (labels : List Label) :
    c.PodKeys (intersectNeighbours o c ns prevPodSet newPodSet labels).2 := by
  induction labels generalizing prevPodSet newPodSet with
  | nil => exact hnew
  | cons label labels ih =>
      rw [intersectNeighbours]
      split_ifs with hempty
      · intro text htext
        cases htext
      · refine ih fun text htext => ?_
        exact podKeys_listNames text (mem_intersect.mp htext).1

variable {found : Bool × List String}

theorem podKeys_getPodsByNSLabelSelector {labels : List Label}
    (h : getPodsByNSLabelSelector o c ns labels = some found) :
    c.PodKeys found.2 := by
  cases labels with
  | nil => cases h
  | cons label labels =>
      cases labels with
      | nil =>
          cases h
          exact podKeys_listNames
      | cons label' labels =>
          cases h
          exact podKeys_intersectNeighbours (by simp [Cache.PodKeys]) _

/-- Only the first of the four sets matters in the end. -/
theorem podKeys_evalExpression {sets sets' : PodSets}
    {expression : LabelExpression} (hsets : c.PodKeys sets.inPodSet)
    (h : evalExpression o c ns sets expression = .ok sets') :
    c.PodKeys sets'.inPodSet := by
  obtain ⟨key, operator, values⟩ := expression
  cases operator with
  | isIn =>
      simp only [evalExpression] at h
      split at h
      · cases h
      · cases h
      · next podSet hfound =>
          cases h
          intro text htext
          rcases List.mem_append.mp htext with hold | hnew
          · exact hsets text hold
          · exact podKeys_getPodsByNSLabelSelector hfound text hnew
  | notIn =>
      simp only [evalExpression] at h
      split at h
      · cases h
      · split_ifs at h
        cases h
        exact hsets
      · split_ifs at h
        cases h
        exact hsets
  | «exists» =>
      simp only [evalExpression] at h
      split_ifs at h
      cases h
      exact hsets
  | doesNotExist =>
      simp only [evalExpression] at h
      split_ifs at h <;> (cases h; exact hsets)

theorem podKeys_foldlM {expressions : List LabelExpression}
    {sets sets' : PodSets} (hsets : c.PodKeys sets.inPodSet)
    (h : expressions.foldlM (evalExpression o c ns) sets = .ok sets') :
    c.PodKeys sets'.inPodSet := by
  induction expressions generalizing sets with
  | nil =>
      cases h
      exact hsets
  | cons expression expressions ih =>
      rw [List.foldlM_cons] at h
      cases hstep : evalExpression o c ns sets expression with
      | error exit =>
          rw [hstep] at h
          cases h
      | ok mid =>
          rw [hstep] at h
          exact ih (podKeys_evalExpression hsets hstep) h

theorem podKeys_getMatchExpressionPods {expressions : List LabelExpression}
    (h : getMatchExpressionPods o c ns expressions = some found) :
    c.PodKeys found.2 := by
  unfold getMatchExpressionPods at h
  split at h
  · cases h
  · cases h
    simp [Cache.PodKeys]
  · next sets hsets =>
      cases h
      intro text htext
      simp only [mem_intersect, mem_removeDuplicates, and_self] at htext
      exact podKeys_foldlM (by simp [Cache.PodKeys]) hsets text htext

variable {ids : List PodID}

section

variable (hc : c.Named)
include hc

theorem knowsPod_of_unstring {texts : List String} (htexts : c.PodKeys texts)
    (h : unstringPodID texts = some ids) :
    ∀ id ∈ ids, c.KnowsPod id := by
  intro id hid
  obtain ⟨text, htext, heq⟩ := (mem_mapM_iff h).mp hid
  obtain ⟨pod, hpod⟩ := Option.ne_none_iff_exists'.mp (htexts text htext)
  obtain ⟨rfl, hns, hname⟩ := hc.pods text pod hpod
  have hparts : unstringID pod.id.string = some (pod.ns, pod.name) :=
    unstringID_string hns hname
  rw [hparts, Option.map_some, Option.some.injEq] at heq
  subst heq
  exact htexts _ htext

theorem knowsPod_of_unstringFound (hfound : c.PodKeys found.2)
    (h : unstringFound found = some ids) :
    ∀ id ∈ ids, c.KnowsPod id := by
  obtain ⟨b, texts⟩ := found
  cases b with
  | false =>
      cases h
      simp
  | true => exact knowsPod_of_unstring hc hfound h

theorem knowsPod_of_lookup {selector : Option LabelSelector}
    (h : lookupPodsByNSLabelSelector o c ns selector = some ids) :
    ∀ id ∈ ids, c.KnowsPod id := by
  unfold lookupPodsByNSLabelSelector at h
  split at h
  · exact knowsPod_of_unstring hc podKeys_listNames h
  · cases h
    simp
  · simp only [bind_eq_some_iff] at h
    obtain ⟨found, hfound, h⟩ := h
    exact knowsPod_of_unstringFound hc (podKeys_getPodsByNSLabelSelector hfound) h
  · simp only [bind_eq_some_iff] at h
    obtain ⟨found, hfound, h⟩ := h
    exact knowsPod_of_unstringFound hc (podKeys_getMatchExpressionPods hfound) h
  · simp only [bind_eq_some_iff] at h
    obtain ⟨mlPods, hml, h⟩ := h
    split_ifs at h
    · simp only [bind_eq_some_iff] at h
      obtain ⟨mePods, hme, h⟩ := h
      split_ifs at h
      · refine knowsPod_of_unstring hc (fun text htext => ?_) h
        exact podKeys_getMatchExpressionPods hme text (mem_intersect.mp htext).1
      · cases h
        simp
    · cases h
      simp

theorem knowsPod_of_listAllPods (h : listAllPods o c = some ids) :
    ∀ id ∈ ids, c.KnowsPod id := by
  refine knowsPod_of_unstring hc (fun text htext => ?_) h
  rw [RangeOrder.mem_order, ← AList.mem_keys, ← AList.lookup_isSome] at htext
  exact Option.isSome_iff_ne_none.mp htext

theorem knowsPolicy_of_unstringID {text : String} {parts : String × String}
    (htext : c.configuredPolicies.lookup text ≠ none)
    (h : unstringID text = some parts) :
    c.KnowsPolicy ⟨parts.2, parts.1⟩ := by
  obtain ⟨policy, hpolicy⟩ := Option.ne_none_iff_exists'.mp htext
  obtain ⟨rfl, hns, hname⟩ := hc.policies text policy hpolicy
  have hparts : unstringID policy.id.string = some (policy.ns, policy.name) :=
    unstringID_string hns hname
  obtain rfl := Option.some.inj (hparts.symm.trans h)
  exact htext

theorem knowsPolicy_of_listAllPolicies {ids : List PolicyID}
    (h : listAllPolicies o c = some ids) : ∀ id ∈ ids, c.KnowsPolicy id := by
  intro id hid
  obtain ⟨text, htext, heq⟩ := (mem_mapM_iff h).mp hid
  obtain ⟨parts, hparts, rfl⟩ := Option.map_eq_some_iff.mp heq
  rw [RangeOrder.mem_order, ← AList.mem_keys, ← AList.lookup_isSome] at htext
  exact knowsPolicy_of_unstringID hc (Option.isSome_iff_ne_none.mp htext) hparts

theorem knowsPolicy_of_listPolicy {pod : PodID}
    {policies policies' : List PolicyID} {entry : String × Policy}
    (hpolicies : ∀ id ∈ policies, c.KnowsPolicy id)
    (hentry : c.configuredPolicies.lookup entry.1 ≠ none)
    (h : listPolicy o c pod policies entry = some policies') :
    ∀ id ∈ policies', c.KnowsPolicy id := by
  simp only [listPolicy, bind_eq_some_iff] at h
  obtain ⟨pods, _, h⟩ := h
  generalize pods.filter (· = pod) = found at h
  induction found generalizing policies with
  | nil =>
      cases h
      exact hpolicies
  | cons _ found ih =>
      simp only [List.foldlM_cons, bind_eq_some_iff, pure_eq_some_iff] at h
      obtain ⟨mid, ⟨parts, hparts, rfl⟩, hrest⟩ := h
      refine ih (fun id hid => ?_) hrest
      rcases List.mem_append.mp hid with hold | hnew
      · exact hpolicies id hold
      · rw [List.mem_singleton.mp hnew]
        exact knowsPolicy_of_unstringID hc hentry hparts

theorem knowsPolicy_of_lookup {p : RangeOrder (String × Policy)} {pod : PodID}
    {ids : List PolicyID} (h : lookupPoliciesByPod o p c pod = some ids) :
    ∀ id ∈ ids, c.KnowsPolicy id := by
  unfold lookupPoliciesByPod at h
  split at h
  · cases h
    simp
  · next podData _ =>
      have hentries : ∀ entry ∈ range p (policiesByLabels o c podData),
          c.configuredPolicies.lookup entry.1 ≠ none := by
        intro entry hentry
        have hlookup := mem_range.mp hentry
        rw [policiesByLabels, lookup_foldl_copyPolicy] at hlookup
        rcases hlookup with ⟨_, hlookup⟩ | ⟨_, hnone⟩
        · simp [hlookup]
        · cases hnone
      have hinit : ∀ id ∈ ([] : List PolicyID), c.KnowsPolicy id := by simp
      generalize range p (policiesByLabels o c podData) = entries at h hentries
      generalize ([] : List PolicyID) = policies at h hinit
      induction entries generalizing policies with
      | nil =>
          cases h
          exact hinit
      | cons entry entries ih =>
          rw [List.foldlM_cons, bind_eq_some_iff] at h
          obtain ⟨mid, hstep, hrest⟩ := h
          rw [List.forall_mem_cons] at hentries
          exact ih hentries.2 mid hrest
            (knowsPolicy_of_listPolicy hc hinit hentries.1 hstep)

end

end Keys

end ContivVPP.PolicyCache

namespace ContivVPP.Processor

open GoMap K8s Net Configurator PolicyCache PartialLoops

/-! ## The contract of the lookups -/

/-- The cache with the contract of its lookups kept: what has no data is not
found. -/
def PolicyCacheAPI.honest (api : PolicyCacheAPI) : PolicyCacheAPI :=
  { api with
    lookupPod := api.lookupPod.honest
    lookupPolicy := fun id =>
      match api.lookupPolicy id with
      | (true, none) => (false, none)
      | result => result }

/-- A notification is handled, which may end with a call of `Process`. -/
def handleNotification (order : RangeOrder String) (api : PolicyCacheAPI)
    (hostNetwork : IPNet) (podIPAddressMap : PodIPAddressMap)
    (choices : CommitChoices) (parallelRendering : Bool)
    (contents : List Content) (notification : Notification) :
    Option (PodIPAddressMap × Committed) := do
  let handled ← handle order api hostNetwork podIPAddressMap notification
  let committed ← process api choices parallelRendering (match notification with
      | .resync _ => true
      | _ => false) handled.2 contents
  return (handled.1, committed)

/-- An updated pod is in the cache, unless the update is ignored. -/
def NotificationKnown (c : Cache) : Notification → Prop
  | .updatePod _ newPod => newPod.ns = "kube-system" ∨
      newPod.ipAddress = "" ∨ c.KnowsPod newPod.id
  | _ => True

section Handlers

variable {o : RangeOrder String} {p : RangeOrder (String × Policy)}
  {c : Cache} {hostNetwork : IPNet} {podIPAddressMap : PodIPAddressMap}

theorem missing_iff {pod : PodID} :
    (PolicyCacheAPI.of o p c).lookupPod.Missing pod ↔ ¬ c.KnowsPod pod := by
  simp [LookupPod.Missing, PolicyCacheAPI.of, lookupPod, Cache.KnowsPod]

theorem honest_lookupPolicy {id : PolicyID} (h : c.KnowsPolicy id) :
    (PolicyCacheAPI.of o p c).honest.lookupPolicy id =
      (PolicyCacheAPI.of o p c).lookupPolicy id := by
  obtain ⟨policy, hpolicy⟩ := Option.ne_none_iff_exists'.mp h
  simp [PolicyCacheAPI.honest, PolicyCacheAPI.of, lookupPolicy, hpolicy]

theorem honest_lookupPod {id : PodID} (h : c.KnowsPod id) :
    (PolicyCacheAPI.of o p c).honest.lookupPod id =
      (PolicyCacheAPI.of o p c).lookupPod id :=
  LookupPod.honest_of_not_missing fun hmissing => missing_iff.mp hmissing h

variable {ipAddress : Option Pod → Option String} {pods : List PodID}

theorem hostPods_honest (h : ∀ pod ∈ pods, c.KnowsPod pod) :
    hostPods (.of o p c) hostNetwork ipAddress pods =
      hostPods (PolicyCacheAPI.of o p c).honest hostNetwork ipAddress pods := by
  unfold hostPods
  congr 1
  exact mapM_congr fun pod hpod => by rw [honest_lookupPod (h pod hpod)]

theorem mem_of_hostPods {api : PolicyCacheAPI} {ids : List PodID}
    (h : hostPods api hostNetwork ipAddress pods = some ids) :
    ∀ id ∈ ids, id ∈ pods := by
  intro id hid
  simp only [hostPods, bind_eq_some_iff, pure_eq_some_iff] at h
  obtain ⟨onHost, hmapM, rfl⟩ := h
  rw [List.reduceOption_mem_iff, mem_mapM_iff hmapM] at hid
  obtain ⟨pod, hpod, heq⟩ := hid
  split at heq
  · cases heq
  · rw [Option.map_eq_some_iff] at heq
    obtain ⟨_, _, heq⟩ := heq
    rw [Option.ite_none_right_eq_some, Option.some.injEq] at heq
    exact heq.2 ▸ hpod

theorem installedPolicies_honest (hc : c.Named) : installedPolicies (.of o p c) =
      installedPolicies (PolicyCacheAPI.of o p c).honest := by
  unfold installedPolicies
  change (listAllPolicies o c).bind _ = (listAllPolicies o c).bind _
  cases hids : listAllPolicies o c with
  | none => rfl
  | some ids =>
      have hknown := knowsPolicy_of_listAllPolicies hc hids
      simp only [Option.bind_some]
      congr 1
      exact mapM_congr fun id hid => by
        rw [honest_lookupPolicy (hknown id hid)]

theorem knowsPod_of_podsOfPolicies (hc : c.Named) {policies : List Policy}
    (h : podsOfPolicies (.of o p c) policies = some pods) :
    ∀ pod ∈ pods, c.KnowsPod pod := by
  simp only [podsOfPolicies, bind_eq_some_iff, pure_eq_some_iff] at h
  obtain ⟨lists, hlists, rfl⟩ := h
  intro pod hpod
  obtain ⟨list, hlist, hmem⟩ := List.mem_flatten.mp hpod
  obtain ⟨policy, _, heq⟩ := (mem_mapM_iff hlists).mp hlist
  exact knowsPod_of_lookup hc heq pod hmem

theorem knowsPod_of_uniquePods (hc : c.Named) {unique : List PodID}
    (hpods : ∀ pod ∈ pods, c.KnowsPod pod)
    (h : uniquePods o pods = some unique) :
    ∀ pod ∈ unique, c.KnowsPod pod := by
  refine knowsPod_of_unstring hc (fun text htext => ?_) h
  rw [mem_removeDuplicates, List.mem_map] at htext
  obtain ⟨pod, hpod, rfl⟩ := htext
  exact hpods pod hpod

/-- A handler does the same with the lookups of the cache and with lookups that
keep their contract, and the pods it processes are in the cache. -/
def HandledAlike {τ : Type*} (c : Cache) (pods : τ → List PodID)
    (result honest : Option τ) : Prop :=
  result = honest ∧
    ∀ handled, result = some handled → ∀ id ∈ pods handled, c.KnowsPod id

theorem HandledAlike.bind {α τ : Type*} {pods : τ → List PodID}
    {x : Option α} {f g : α → Option τ}
    (h : ∀ a, x = some a → HandledAlike c pods (f a) (g a)) :
    HandledAlike c pods (x.bind f) (x.bind g) := by
  cases x with
  | none => exact ⟨rfl, by simp⟩
  | some a => exact h a rfl

theorem HandledAlike.map {τ : Type*} {pods : τ → List PodID}
    {f : List PodID → τ} {x y : Option (List PodID)}
    (hf : ∀ ids, pods (f ids) = ids) (h : HandledAlike c id x y) :
    HandledAlike c pods (x.map f) (y.map f) := by
  refine ⟨by rw [h.1], fun handled hhandled id hid => ?_⟩
  obtain ⟨ids, hids, rfl⟩ := Option.map_eq_some_iff.mp hhandled
  rw [hf] at hid
  exact h.2 ids hids id hid

theorem handledAlike_hostPods (h : ∀ pod ∈ pods, c.KnowsPod pod) :
    HandledAlike c id (hostPods (.of o p c) hostNetwork ipAddress pods)
      (hostPods (PolicyCacheAPI.of o p c).honest hostNetwork ipAddress pods) :=
  ⟨hostPods_honest h, fun _ heq id hid => h id (mem_of_hostPods heq id hid)⟩

theorem handledAlike_delPod (hc : c.Named) {pod : Pod} :
    HandledAlike c id (delPod o (.of o p c) hostNetwork podIPAddressMap pod)
      (delPod o (PolicyCacheAPI.of o p c).honest hostNetwork podIPAddressMap
        pod) := by
  unfold delPod
  split_ifs with hkube
  · exact ⟨rfl, by simp⟩
  · rw [← installedPolicies_honest hc]
    refine .bind fun dataPolicies _ => .bind fun pods hpods =>
      .bind fun unique hunique => handledAlike_hostPods ?_
    exact knowsPod_of_uniquePods hc (knowsPod_of_podsOfPolicies hc hpods) hunique

theorem handledAlike_updatePod (hc : c.Named) {oldPod newPod : Pod}
    (hnew : NotificationKnown c (.updatePod oldPod newPod)) :
    HandledAlike c Prod.snd
      (updatePod o (.of o p c) hostNetwork podIPAddressMap oldPod newPod)
      (updatePod o (PolicyCacheAPI.of o p c).honest hostNetwork
        podIPAddressMap oldPod newPod) := by
  unfold updatePod
  split_ifs with hkube hip
  · exact ⟨rfl, by simp⟩
  · exact ⟨rfl, by simp⟩
  · have hpod := (hnew.resolve_left hkube).resolve_left hip
    rw [← installedPolicies_honest hc]
    refine .bind fun dataPolicies _ => .bind fun pods hpods =>
      .bind fun unique hunique => ?_
    have hunique := knowsPod_of_uniquePods hc (List.forall_mem_cons.mpr
      ⟨hpod, knowsPod_of_podsOfPolicies hc hpods⟩) hunique
    obtain ⟨hsame, hknown⟩ := handledAlike_hostPods (o := o) (p := p) hunique
    rw [← hsame]
    refine .bind fun ids hids => ⟨rfl, fun handled hhandled => ?_⟩
    cases hhandled
    exact hknown ids hids

theorem handledAlike_policy (hc : c.Named) {policy : Policy} :
    HandledAlike c id (addPolicy (.of o p c) hostNetwork policy)
      (addPolicy (PolicyCacheAPI.of o p c).honest hostNetwork policy) :=
  .bind fun _ hpods => handledAlike_hostPods (knowsPod_of_lookup hc hpods)

theorem handledAlike_updatePolicy (hc : c.Named) {oldPolicy newPolicy : Policy} :
    HandledAlike c id (updatePolicy o (.of o p c) hostNetwork oldPolicy newPolicy)
      (updatePolicy o (PolicyCacheAPI.of o p c).honest hostNetwork oldPolicy
        newPolicy) := by
  refine .bind fun oldPods hold => .bind fun newPods hnew =>
    .bind fun unique hunique => handledAlike_hostPods ?_
  refine knowsPod_of_uniquePods hc (fun pod hpod => ?_) hunique
  rcases List.mem_append.mp hpod with hpod | hpod
  · exact knowsPod_of_lookup hc hold pod hpod
  · exact knowsPod_of_lookup hc hnew pod hpod

variable {notification : Notification}

theorem handledAlike_handle (hc : c.Named)
    (hknown : NotificationKnown c notification) :
    HandledAlike c Prod.snd
      (handle o (.of o p c) hostNetwork podIPAddressMap notification)
      (handle o (PolicyCacheAPI.of o p c).honest hostNetwork podIPAddressMap
        notification) := by
  cases notification with
  | addPod | addNamespace | delNamespace | updateNamespace =>
      exact ⟨rfl, by simp [handle]⟩
  | resync data =>
      exact .map (fun _ => rfl) ⟨rfl, fun _ h => knowsPod_of_listAllPods hc h⟩
  | delPod pod => exact .map (fun _ => rfl) (handledAlike_delPod hc)
  | updatePod oldPod newPod => exact handledAlike_updatePod hc hknown
  | addPolicy policy | delPolicy policy =>
      exact .map (fun _ => rfl) (handledAlike_policy hc)
  | updatePolicy oldPolicy newPolicy =>
      exact .map (fun _ => rfl) (handledAlike_updatePolicy hc)

/-! ## Processing -/

theorem processPod_honest (hc : c.Named) (pod : PodID) :
    processPod (.of o p c) pod =
      processPod (PolicyCacheAPI.of o p c).honest pod := by
  unfold processPod
  change (lookupPoliciesByPod o p c pod).bind _ =
    (lookupPoliciesByPod o p c pod).bind _
  cases hids : lookupPoliciesByPod o p c pod with
  | none => rfl
  | some ids =>
      have hknown := knowsPolicy_of_lookup hc hids
      simp only [Option.bind_some]
      congr 1
      refine mapM_congr fun id hid => ?_
      unfold processPolicy
      rw [honest_lookupPolicy (hknown id hid)]
      rfl

theorem knowsPod_of_processPod (hc : c.Named) {pod : PodID}
    {policies : List ContivPolicy}
    (h : processPod (.of o p c) pod = some policies)
    (direction : MatchType) :
    ∀ peer ∈ peersOf direction policies, c.KnowsPod peer := by
  intro peer hpeer
  obtain ⟨policy, hpolicy, _, m, hm, _, hmem⟩ := mem_peersOf.mp hpeer
  obtain ⟨_, data, _, hdata, _⟩ := mem_processPod h hpolicy
  obtain ⟨rule, _, _, hrule⟩ := mem_processData hdata hm
  obtain ⟨_, _, ids, hids, hid⟩ := mem_pods_calculateMatch hrule hmem
  exact knowsPod_of_lookup hc hids peer hid

theorem process_honest (hc : c.Named) (hpods : ∀ pod ∈ pods, c.KnowsPod pod)
    (choices : CommitChoices) (parallelRendering resync : Bool)
    (contents : List Content) :
    process (.of o p c) choices parallelRendering resync pods contents =
      process (PolicyCacheAPI.of o p c).honest choices parallelRendering
        resync pods contents := by
  have hcalls : (pods.mapM fun pod =>
      (processPod (.of o p c) pod).map (pod, ·)) =
      pods.mapM fun pod =>
        (processPod (PolicyCacheAPI.of o p c).honest pod).map (pod, ·) :=
    mapM_congr fun pod _ => by rw [processPod_honest hc]
  unfold process
  rw [← hcalls]
  cases hmapM : pods.mapM fun pod =>
      (processPod (.of o p c) pod).map (pod, ·) with
  | none => rfl
  | some calls =>
      refine commit_honest ?_ choices parallelRendering false contents
      intro pod policies hlookup
      have hcall := lookup_configure.1 policies hlookup
      obtain ⟨pod', hpod', heq⟩ := (mem_mapM_iff hmapM).mp hcall
      obtain ⟨policies', hpolicies, heq⟩ := Option.map_eq_some_iff.mp heq
      obtain ⟨rfl, rfl⟩ := Prod.mk.inj heq
      refine ⟨fun hmissing => missing_iff.mp hmissing (hpods pod' hpod'),
        fun _ direction peer hpeer hmissing => ?_⟩
      exact missing_iff.mp hmissing
        (knowsPod_of_processPod hc hpolicies direction peer hpeer)

theorem handleNotification_honest (hc : c.Named)
    (hknown : NotificationKnown c notification) (choices : CommitChoices)
    (parallelRendering : Bool) (contents : List Content) :
    handleNotification o (.of o p c) hostNetwork podIPAddressMap choices
        parallelRendering contents notification =
      handleNotification o (PolicyCacheAPI.of o p c).honest hostNetwork
        podIPAddressMap choices parallelRendering contents notification := by
  obtain ⟨hsame, hpods⟩ := handledAlike_handle (o := o) (p := p) hc hknown
  unfold handleNotification
  rw [← hsame]
  cases hhandled : handle o (.of o p c) hostNetwork podIPAddressMap
      notification with
  | none => rfl
  | some handled =>
      simp only [Option.bind_eq_bind, Option.bind_some]
      rw [process_honest hc (hpods handled hhandled)]

theorem notificationKnown_of_handle {handled : PodIPAddressMap × List PodID}
    (hnames : ∀ oldPod newPod, notification = .updatePod oldPod newPod →
      ValidName newPod.ns ∧ ValidName newPod.name)
    (h : handle o (.of o p c) hostNetwork podIPAddressMap notification =
      some handled) : NotificationKnown c notification := by
  cases notification with
  | updatePod oldPod newPod =>
      simp only [handle, updatePod] at h
      split_ifs at h with hkube hip
      · exact Or.inl hkube
      · exact Or.inr (Or.inl hip)
      · simp only [bind_eq_some_iff] at h
        obtain ⟨_, _, pods, _, unique, hunique, ids, hhost, _⟩ := h
        obtain ⟨hns, hname⟩ := hnames oldPod newPod rfl
        have hmem : newPod.id ∈ unique := by
          rw [uniquePods, unstringPodID] at hunique
          rw [mem_mapM_iff hunique]
          refine ⟨newPod.id.string, by simp, ?_⟩
          rw [PodID.string]
          exact congrArg _ (unstringID_string hns hname)
        refine Or.inr (Or.inr fun hnone => ?_)
        simp only [hostPods, bind_eq_some_iff] at hhost
        obtain ⟨onHost, hmapM, _⟩ := hhost
        obtain ⟨_, _, heq⟩ := exists_of_mapM hmapM hmem
        simp [PolicyCacheAPI.of, lookupPod, hnone] at heq
  | _ => trivial

end Handlers

/-- A transaction of the configurator leaves out the pods that are not in the
cache just if no such pod is configured or matters as a peer.  The handlers of
the processor come to their end, unless they are told of the update of a pod
that is not in the cache. -/
theorem missing_data_iff (o : RangeOrder String)
    (p : RangeOrder (String × Policy)) (c : Cache) (hc : c.Named) :
    (∀ config, (∀ choices parallelRendering resync contents,
        SkipsUnknown choices (lookupPod c) parallelRendering resync config
          contents) ↔
      ∀ pod policies, config.lookup pod = some policies → c.KnowsPod pod ∧
        (Renderable (lookupPod c) pod → ∀ direction,
          ∀ peer ∈ peersOf direction policies, c.KnowsPod peer)) ∧
    ∀ hostNetwork podIPAddressMap choices parallelRendering contents notification,
      (∀ oldPod newPod, notification = .updatePod oldPod newPod →
        ValidName newPod.ns ∧ ValidName newPod.name) →
      (handleNotification o (PolicyCacheAPI.of o p c).honest hostNetwork
        podIPAddressMap choices parallelRendering contents
        notification).isSome →
      ((handleNotification o (.of o p c) hostNetwork podIPAddressMap choices
          parallelRendering contents notification).isSome ↔
        NotificationKnown c notification) := by
  constructor
  · intro config
    rw [commit_skipsUnknown_iff]
    refine forall_congr' fun pod => forall_congr' fun policies =>
      forall_congr' fun _ => ?_
    have hmissing : ∀ pod, ¬ LookupPod.Missing (lookupPod c) pod ↔
        c.KnowsPod pod := by
      intro pod
      simp [LookupPod.Missing, lookupPod, Cache.KnowsPod]
    constructor
    · intro h
      exact ⟨(hmissing pod).mp h.known, fun hpod direction peer hpeer =>
        (hmissing peer).mp (h.peers hpod direction peer hpeer)⟩
    · intro h
      exact ⟨(hmissing pod).mpr h.1, fun hpod direction peer hpeer =>
        (hmissing peer).mpr (h.2 hpod direction peer hpeer)⟩
  · intro hostNetwork podIPAddressMap choices parallelRendering contents
      notification hnames hsome
    constructor
    · intro hends
      obtain ⟨result, hresult⟩ := Option.isSome_iff_exists.mp hends
      rw [handleNotification, bind_eq_some_iff] at hresult
      obtain ⟨handled, hhandled, _⟩ := hresult
      exact notificationKnown_of_handle hnames hhandled
    · intro hknown
      rw [handleNotification_honest hc hknown]
      exact hsome

theorem twoPods_named : twoPods.Named where
  pods id pod hlookup := by
    obtain ⟨hid, hvalid⟩ := twoPods_registered id pod hlookup
    exact ⟨hid, hvalid.ns, hvalid.name⟩
  policies id policy hlookup := by
    simp [twoPods, Cache.init] at hlookup

def allowFrom (peer : PodID) : ContivPolicy :=
  ⟨⟨"allow", "default"⟩, .ingress, [⟨.ingress, some [peer], none, []⟩]⟩

/-- The peer is in the cache, and an update of a known pod is handled. -/
theorem missing_data_iff_allowFrom_blogPod :
    SkipsUnknown .succeeding (lookupPod twoPods) false true
        (configure [(shopPod.id, [allowFrom blogPod.id]), (blogPod.id, [])])
        [staleContent] ∧
      (handleNotification .insertion (.of .insertion .insertion twoPods)
        ⟨[10, 1, 1, 0], [255, 255, 255, 0]⟩ ∅ .succeeding false
        [staleContent] (.updatePod shopPod shopPod)).isSome = true := by
  have hiff := missing_data_iff .insertion .insertion twoPods twoPods_named
  have hshop : twoPods.KnowsPod shopPod.id := by
    unfold Cache.KnowsPod
    decide +kernel
  have hblog : twoPods.KnowsPod blogPod.id := by
    unfold Cache.KnowsPod
    decide +kernel
  constructor
  · refine (hiff.1 _).mpr (fun pod policies hlookup => ?_) _ _ _ _
    have hcall := lookup_configure.1 policies hlookup
    simp only [List.mem_cons, List.not_mem_nil, or_false, Prod.mk.injEq] at hcall
    rcases hcall with ⟨rfl, rfl⟩ | ⟨rfl, rfl⟩
    · refine ⟨hshop, fun _ direction peer hpeer => ?_⟩
      obtain ⟨policy, hpolicy, _, m, hm, _, hmem⟩ := mem_peersOf.mp hpeer
      obtain rfl := List.mem_singleton.mp hpolicy
      obtain rfl := List.mem_singleton.mp hm
      obtain rfl := List.mem_singleton.mp hmem
      exact hblog
    · exact ⟨hblog, fun _ _ _ hpeer => by simp [peersOf] at hpeer⟩
  · refine (hiff.2 _ _ _ _ _ _ ?_ (by decide +kernel)).mpr ?_
    · rintro _ _ ⟨⟩
      exact ⟨shopPod_valid.ns, shopPod_valid.name⟩
    · exact Or.inr (Or.inr hshop)

/-- The agent crashes on the unknown peer, though all it has to do is leave it
out. -/
theorem commit_allowUnknown_crashes :
    (commit .succeeding (lookupPod twoPods) false false
      (configure [(shopPod.id, [allowFrom ⟨"unknown", "default"⟩])])
      []).isSome = false := by
  decide +kernel

end ContivVPP.Processor
