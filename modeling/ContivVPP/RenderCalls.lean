import Mathlib.Data.List.ReduceOption
import ContivVPP.MissingPods

/-!
# What is rendered for a pod

A commit remembers the sets of policies that it has processed and takes their
rules over for later pods.  Two sets are taken for the same if their sorted IDs
are the same.  If policies with the same ID are the same, each pod is rendered
as if it were alone, and its rules depend on nothing but the set of its
policies.
-/

namespace ContivVPP.Configurator

open GoMap Net K8s Renderer PartialLoops KeyedAppend

/-! ## Policies by ID -/

/-- The policies sorted by ID, with the order of the others kept. -/
def byID (policies : List ContivPolicy) : List ContivPolicy :=
  PolicySort.merge.sort policies

def SameByID (policies : List ContivPolicy) : Prop :=
  ∀ a ∈ policies, ∀ b ∈ policies, a.id = b.id → a = b

section ByID

variable {policies policies' : List ContivPolicy}

theorem mem_byID {policy : ContivPolicy} :
    policy ∈ byID policies ↔ policy ∈ policies :=
  (PolicySort.merge.perm policies).mem_iff

theorem ContivPolicy.id_eq_of_not_less {a b : ContivPolicy}
    (hab : b.less a = false) (hba : a.less b = false) : a.id = b.id := by
  rw [← Bool.not_eq_true, ContivPolicy.less_iff, not_lt] at hab hba
  have heq := toLex.injective (le_antisymm hab hba)
  obtain ⟨hns, hname⟩ := Prod.mk.inj heq
  obtain ⟨⟨name, ns⟩, _, _⟩ := a
  obtain ⟨⟨name', ns'⟩, _, _⟩ := b
  exact PolicyID.mk.injEq .. ▸ ⟨hname, hns⟩

theorem sort_eq_byID (h : SameByID policies) (sort : PolicySort) :
    sort.sort policies = byID policies := by
  have hperm : (sort.sort policies).Perm (byID policies) :=
    (sort.perm policies).trans (PolicySort.merge.perm policies).symm
  refine hperm.eq_of_pairwise ?_ (sort.sorted policies)
    (PolicySort.merge.sorted policies)
  intro a b ha hb hab hba
  exact h a ((sort.perm policies).mem_iff.mp ha) b (mem_byID.mp hb)
    (ContivPolicy.id_eq_of_not_less hab hba)

theorem distinct_byID (h : SameByID policies)
    (hmem : ∀ policy, policy ∈ policies ↔ policy ∈ policies') :
    distinct (byID policies) = distinct (byID policies') := by
  refine distinct_eq (fun policy => ?_) (PolicySort.merge.sorted policies)
    (PolicySort.merge.sorted policies') ?_
  · rw [mem_byID, mem_byID, hmem]
  · intro a ha b hb hab hba
    exact h a (mem_byID.mp ha) b (mem_byID.mp hb)
      (ContivPolicy.id_eq_of_not_less hab hba)

end ByID

/-! ## Rules of a set of policies -/

section Rules

variable {lookupPod : LookupPod} {direction : MatchType}
  {policies policies' : List ContivPolicy}

theorem candidateRules_congr (h : distinct policies = distinct policies') :
    appendRules [] (candidateRules lookupPod direction policies) =
      appendRules [] (candidateRules lookupPod direction policies') := by
  rw [appendRules_eq, appendRules_eq, candidateRules, candidateRules,
    ← appendAllNew_flatMap_distinct, h, appendAllNew_flatMap_distinct]

theorem any_congr {P : ContivPolicy → Bool}
    (h : ∀ policy, policy ∈ policies ↔ policy ∈ policies') :
    policies.any P = policies'.any P := by
  rw [Bool.eq_iff_iff, List.any_eq_true, List.any_eq_true]
  exact exists_congr fun policy => and_congr_left fun _ => h policy

/-- Rules depend on the distinct policies only, in the order in which they
come. -/
theorem generateRules_of_distinct (h : distinct policies = distinct policies') :
    generateRules lookupPod direction policies =
      generateRules lookupPod direction policies' := by
  have hmem : ∀ policy, policy ∈ policies ↔ policy ∈ policies' := by
    intro policy
    rw [← mem_distinct, h, mem_distinct]
  have hpeers : ∀ peer, peer ∈ peersOf direction policies ↔
      peer ∈ peersOf direction policies' := by
    intro peer
    simp only [mem_peersOf, hmem]
  by_cases hknown : ∀ peer ∈ peersOf direction policies, ¬ lookupPod.Missing peer
  · rw [generateRules_honest hknown, generateRules_honest fun peer hpeer =>
      hknown peer ((hpeers peer).mpr hpeer),
      generateRules_eq lookupPod.honest_sound,
      generateRules_eq lookupPod.honest_sound, candidateRules_congr h,
      any_congr hmem, any_congr hmem]
  · -- Missing data are dereferenced for both.
    have hnone : ∀ {l}, (∀ peer, peer ∈ peersOf direction policies ↔
        peer ∈ peersOf direction l) →
        generateRules lookupPod direction l = none := by
      intro l hl
      rw [Option.eq_none_iff_forall_ne_some]
      intro rules hrules
      exact hknown fun peer hpeer =>
        not_missing_of_generateRules hrules peer ((hl peer).mp hpeer)
    rw [hnone fun _ => Iff.rfl, hnone hpeers]

end Rules

/-! ## The loop over the pods -/

/-- The rules of the sorted policies of a pod.  Directions in policies are
those of the pod, whereas those of rules are the ones of the vswitch. -/
def generated (lookupPod : LookupPod) (podIPNet : IPNet)
    (policies : List ContivPolicy) : Option Rendered := do
  let egress ← generateRules lookupPod .ingress (byID policies)
  let ingress ← generateRules lookupPod .egress (byID policies)
  return ⟨podIPNet, ingress, egress⟩

/-- What is rendered for a pod when no rules are taken over. -/
def renderAlone (lookupPod : LookupPod) (entry : PodID × List ContivPolicy) :
    Option (Option (PodID × Rendered)) :=
  match lookupPod entry.1 with
  | (false, _) => some none
  | (true, none) => none
  | (true, some podData) =>
      if podData.ipAddress = "" then some none
      else
        match getOneHostSubnet podData.ipAddress with
        | none => some none
        | some podIPNet =>
            (generated lookupPod podIPNet entry.2).map fun rendered =>
              some (entry.1, rendered)

/-- The calls of `Render` in a transaction of a renderer. -/
def renderCalls (choices : CommitChoices) (lookupPod : LookupPod)
    (config : AList fun _ : PodID => List ContivPolicy) :
    Option (List (PodID × Rendered)) :=
  ((range choices.podOrder config).foldlM
    (commitPod lookupPod choices.sort) ⟨[], []⟩).map CommitState.renders

section Loop

variable {lookupPod : LookupPod}
  {all : List (PodID × List ContivPolicy)} {s : CommitState}
  {entry : PodID × List ContivPolicy}

def ProcessedFrom (lookupPod : LookupPod)
    (all : List (PodID × List ContivPolicy)) (s : CommitState) : Prop :=
  ∀ set ∈ s.processed, set.Valid lookupPod ∧
    ∃ entry ∈ all, set.policies = byID entry.2

def EntriesSameByID (all : List (PodID × List ContivPolicy)) : Prop :=
  ∀ entry ∈ all, ∀ entry' ∈ all, ∀ a ∈ entry.2, ∀ b ∈ entry'.2,
    a.id = b.id → a = b

theorem processPolicies_of_equal (hall : EntriesSameByID all)
    (hentry : entry ∈ all) (hs : ProcessedFrom lookupPod all s)
    {set : ProcessedPolicySet} (hset : set ∈ s.processed)
    (hequal : policiesEqual set.policies (byID entry.2) = true) :
    processPolicies lookupPod (byID entry.2) = some set := by
  obtain ⟨hvalid, entry', hentry', hpolicies⟩ := hs set hset
  have hsame : set.policies = byID entry.2 := by
    refine eq_of_map_eq (by simpa [policiesEqual] using hequal) ?_
    intro a ha b hb hid
    rw [hpolicies, mem_byID] at ha
    exact hall entry' hentry' entry hentry a ha b (mem_byID.mp hb) hid
  rw [← hsame]
  exact hvalid

theorem generated_eq (lookupPod : LookupPod) (podIPNet : IPNet)
    (policies : List ContivPolicy) :
    generated lookupPod podIPNet policies =
      (processPolicies lookupPod (byID policies)).map fun set =>
        ⟨podIPNet, set.ingress, set.egress⟩ := by
  unfold generated processPolicies
  cases generateRules lookupPod .ingress (byID policies) with
  | none => rfl
  | some egress =>
      cases generateRules lookupPod .egress (byID policies) with
      | none => rfl
      | some ingress => rfl

theorem processedFrom_append (hs : ProcessedFrom lookupPod all s)
    (hentry : entry ∈ all) {set : ProcessedPolicySet}
    (hset : processPolicies lookupPod (byID entry.2) = some set)
    (renders : List (PodID × Rendered)) :
    ProcessedFrom lookupPod all ⟨s.processed ++ [set], renders⟩ := by
  intro set' hset'
  rcases List.mem_append.mp hset' with hold | hnew
  · exact hs set' hold
  · rw [List.mem_singleton.mp hnew]
    have hpolicies := processPolicies_policies hset
    refine ⟨?_, entry, hentry, hpolicies⟩
    rw [ProcessedPolicySet.Valid, hpolicies]
    exact hset

theorem commitPod_cases (sort : PolicySort) (hall : EntriesSameByID all)
    (hentry : entry ∈ all)
    (hs : ProcessedFrom lookupPod all s) :
    renderAlone lookupPod entry = none ∧ commitPod lookupPod sort s entry = none ∨
      ∃ call s', renderAlone lookupPod entry = some call ∧
        commitPod lookupPod sort s entry = some s' ∧
        s'.renders = s.renders ++ call.toList ∧
        ProcessedFrom lookupPod all s' := by
  have hsort : sort.sort entry.2 = byID entry.2 :=
    sort_eq_byID (hall entry hentry entry hentry) sort
  unfold renderAlone commitPod
  rcases hlookup : lookupPod entry.1 with ⟨found, data⟩
  cases found with
  | false => exact Or.inr ⟨none, s, rfl, rfl, by simp, hs⟩
  | true =>
      cases data with
      | none => exact Or.inl ⟨rfl, rfl⟩
      | some data =>
          simp only
          split_ifs with hip
          · exact Or.inr ⟨none, s, rfl, rfl, by simp, hs⟩
          · cases hnet : getOneHostSubnet data.ipAddress with
            | none => exact Or.inr ⟨none, s, rfl, rfl, by simp, hs⟩
            | some podIPNet =>
                simp only [hsort]
                cases hlast : (s.processed.filter fun set =>
                    policiesEqual set.policies (byID entry.2)).getLast? with
                | some set =>
                    have hmem := List.mem_filter.mp (List.mem_of_getLast? hlast)
                    have hset := processPolicies_of_equal hall hentry hs
                      hmem.1 hmem.2
                    refine Or.inr ⟨some (entry.1, ⟨podIPNet, set.ingress,
                      set.egress⟩), _, ?_, rfl, rfl, hs⟩
                    rw [generated_eq, hset]
                    rfl
                | none =>
                    rw [generated_eq]
                    cases hset : processPolicies lookupPod (byID entry.2) with
                    | none => exact Or.inl ⟨rfl, rfl⟩
                    | some set =>
                        exact Or.inr ⟨some (entry.1, ⟨podIPNet, set.ingress,
                          set.egress⟩), _, rfl, rfl, rfl,
                          processedFrom_append hs hentry hset _⟩

theorem foldlM_commitPod_eq (sort : PolicySort)
    {entries : List (PodID × List ContivPolicy)}
    (hall : EntriesSameByID all) (hentries : ∀ entry ∈ entries, entry ∈ all)
    (hs : ProcessedFrom lookupPod all s) :
    (entries.foldlM (commitPod lookupPod sort) s).map CommitState.renders =
      (entries.mapM (renderAlone lookupPod)).map fun calls =>
        s.renders ++ calls.reduceOption := by
  induction entries generalizing s with
  | nil => simp
  | cons entry entries ih =>
      rw [List.forall_mem_cons] at hentries
      rw [List.foldlM_cons, List.mapM_cons]
      rcases commitPod_cases sort hall hentries.1 hs with
        ⟨halone, hcommit⟩ | ⟨call, s', halone, hcommit, hrenders, hs'⟩
      · rw [halone, hcommit]
        rfl
      · rw [halone, hcommit, Option.bind_eq_bind, Option.bind_some,
          ih hentries.2 hs', hrenders]
        cases entries.mapM (renderAlone lookupPod) with
        | none => rfl
        | some calls => cases call <;> simp

end Loop

/-! ## Transactions -/

/-- Policies of a transaction with the same ID are the same. -/
def ConfigSameByID (config : AList fun _ : PodID => List ContivPolicy) : Prop :=
  ∀ pod pod' policies policies', config.lookup pod = some policies →
    config.lookup pod' = some policies' →
    ∀ a ∈ policies, ∀ b ∈ policies', a.id = b.id → a = b

/-- Every renderer gets the rules of each pod on its own, in whatever order the
pods come and their policies are listed, and these rules are those of the set
of its policies. -/
theorem renderCalls_canonical (lookupPod : LookupPod)
    (config : AList fun _ : PodID => List ContivPolicy)
    (hsame : ConfigSameByID config) :
    (∀ choices, renderCalls choices lookupPod config =
      ((range choices.podOrder config).mapM (renderAlone lookupPod)).map
        List.reduceOption) ∧
    (∀ choices parallelRendering resync contents,
      commit choices lookupPod parallelRendering resync config contents =
        (renderCalls choices lookupPod config).map fun calls =>
          if calls = [] then ⟨contents, none⟩
          else commitRenderers choices parallelRendering ⟨resync, calls⟩
            contents) ∧
    ∀ pod policies policies', config.lookup pod = some policies →
      (∀ policy, policy ∈ policies ↔ policy ∈ policies') →
      ∀ direction, generateRules lookupPod direction (byID policies) =
        generateRules lookupPod direction (byID policies') := by
  refine ⟨fun choices => ?_, fun choices parallelRendering resync contents =>
    ?_, ?_⟩
  · have hall : EntriesSameByID (range choices.podOrder config) := by
      intro entry hentry entry' hentry'
      exact hsame entry.1 entry'.1 entry.2 entry'.2 (mem_range.mp hentry)
        (mem_range.mp hentry')
    have hinit : ProcessedFrom lookupPod (range choices.podOrder config)
        ⟨[], []⟩ := by simp [ProcessedFrom]
    have hloop := foldlM_commitPod_eq choices.sort hall (fun _ h => h) hinit
    simpa [renderCalls] using hloop
  · rw [commit, renderCalls]
    cases (range choices.podOrder config).foldlM
      (commitPod lookupPod choices.sort) ⟨[], []⟩ <;> rfl
  · intro pod policies policies' hlookup hmem direction
    exact generateRules_of_distinct
      (distinct_byID (hsame pod pod policies policies hlookup hlookup) hmem)

theorem configSameByID_of_pairs
    {config : AList fun _ : PodID => List ContivPolicy}
    (h : ∀ entry ∈ pairs config, ∀ entry' ∈ pairs config,
      ∀ a ∈ entry.2, ∀ b ∈ entry'.2, a.id = b.id → a = b) :
    ConfigSameByID config := by
  intro pod pod' policies policies' hlookup hlookup'
  exact h (pod, policies) (mem_range (o := .insertion).mpr hlookup)
    (pod', policies') (mem_range (o := .insertion).mpr hlookup')

def denyIngress : ContivPolicy := ⟨⟨"deny", "default"⟩, .ingress, []⟩

def denyEgress : ContivPolicy := ⟨⟨"deny", "prod"⟩, .egress, []⟩

def twoPolicies : AList fun _ : PodID => List ContivPolicy :=
  configure [(⟨"shop", "default"⟩, [denyIngress, denyEgress]),
    (⟨"blog", "default"⟩, [denyEgress, denyIngress])]

theorem twoPolicies_sameByID : ConfigSameByID twoPolicies :=
  configSameByID_of_pairs (by decide +kernel)

theorem merge_twoPolicies : PolicySort.merge.sort [denyIngress, denyEgress] =
      [denyIngress, denyEgress] ∧
    PolicySort.merge.sort [denyEgress, denyIngress] =
      [denyIngress, denyEgress] := by
  have hless : denyIngress.less denyEgress = true := by decide +kernel
  have hnot : denyEgress.less denyIngress = false := by decide +kernel
  simp [PolicySort.merge, List.mergeSort, List.MergeSort.Internal.splitInTwo,
    hless, hnot]

def bothPods : LookupPod :=
  fun pod => (true, some ⟨pod.name, pod.ns, [],
    if pod.name = "shop" then "10.1.1.2" else "10.1.1.3"⟩)

def inOrder : CommitChoices := ⟨.insertion, .merge, fun _ => none, .insertion⟩

def hostNetwork (host : UInt8) : IPNet :=
  ⟨[0, 0, 0, 0, 0, 0, 0, 0, 0, 0, 255, 255, 10, 1, 1, host], [255, 255, 255, 255]⟩

def renderedPods : List (PodID × Rendered) :=
  [(⟨"blog", "default"⟩, ⟨hostNetwork 3, denyTheRest, denyTheRest⟩),
    (⟨"shop", "default"⟩, ⟨hostNetwork 2, denyTheRest, denyTheRest⟩)]

/-- The rules that were generated for the first pod are taken over for the
second one. -/
theorem renderCalls_canonical_twoPolicies :
    ((range .insertion twoPolicies).foldlM (commitPod bothPods .merge)
      ⟨[], []⟩).map (fun s => s.processed.length) = some 1 ∧
    renderCalls inOrder bothPods twoPolicies = some renderedPods ∧
    ∀ direction, generateRules bothPods direction
        (byID [denyIngress, denyEgress]) =
      generateRules bothPods direction (byID [denyEgress, denyIngress]) := by
  have hcanonical := renderCalls_canonical bothPods twoPolicies
    twoPolicies_sameByID
  have hrange : range .insertion twoPolicies =
      [(⟨"blog", "default"⟩, [denyEgress, denyIngress]),
        (⟨"shop", "default"⟩, [denyIngress, denyEgress])] := by
    decide +kernel
  refine ⟨?_, (hcanonical.1 inOrder).trans ?_, fun direction =>
    hcanonical.2.2 ⟨"shop", "default"⟩ [denyIngress, denyEgress]
      [denyEgress, denyIngress] (by decide +kernel)
      (fun policy => by simp [or_comm]) direction⟩
  · simp only [hrange, List.foldlM_cons, commitPod, merge_twoPolicies]
    decide +kernel
  · simp only [inOrder, hrange, List.mapM_cons, List.mapM_nil, renderAlone,
      generated, byID, merge_twoPolicies]
    decide +kernel

end ContivVPP.Configurator
