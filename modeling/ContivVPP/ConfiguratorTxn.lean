import Mathlib.Data.String.Basic
import ContivVPP.GenerateRules
import ContivVPP.GoMap

/-!
# Transactions of the policy configurator

A transaction collects the policies of pods.  Its commit goes over the pods in
any order, generates the rules of those with a valid address, and hands them to
a transaction of every registered renderer.  The transactions of the renderers
are started with the first such pod; then they are committed, one after the
other or in parallel.
-/

namespace ContivVPP.Configurator

open GoMap Net K8s Renderer

/-! ## Lists of policies -/

def ContivPolicy.less (a b : ContivPolicy) : Bool :=
  a.id.ns < b.id.ns || (a.id.ns == b.id.ns && a.id.name < b.id.name)

/-- A way to sort policies by their IDs.  It is open what happens to policies
with the same ID. -/
structure PolicySort where
  sort : List ContivPolicy → List ContivPolicy
  perm : ∀ policies, (sort policies).Perm policies
  sorted : ∀ policies, (sort policies).Pairwise fun a b => b.less a = false

theorem ContivPolicy.less_iff {a b : ContivPolicy} : a.less b = true ↔
    toLex (a.id.ns, a.id.name) < toLex (b.id.ns, b.id.name) := by
  simp [ContivPolicy.less, Prod.Lex.lt_iff]

def PolicySort.merge : PolicySort where
  sort policies := policies.mergeSort fun a b => !b.less a
  perm policies := List.mergeSort_perm policies _
  sorted policies := by
    have hle : ∀ a b : ContivPolicy, (!b.less a) = true ↔
        toLex (a.id.ns, a.id.name) ≤ toLex (b.id.ns, b.id.name) := by
      intro a b
      rw [Bool.not_eq_true', ← Bool.not_eq_true, ContivPolicy.less_iff, not_lt]
    have hsorted := @List.pairwise_mergeSort _ (fun a b => !b.less a)
      (fun a b c hab hbc => by
        rw [hle] at hab hbc ⊢
        exact hab.trans hbc)
      (fun a b => by
        rw [Bool.or_eq_true, hle, hle]
        exact le_total _ _)
      policies
    exact hsorted.imp fun h => by simpa using h

/-- `ContivPolicies.Equals`, which compares the IDs only. -/
def policiesEqual (cp cp2 : List ContivPolicy) : Bool :=
  cp.map ContivPolicy.id == cp2.map ContivPolicy.id

/-! ## Renderers -/

structure Rendered where
  podIP : IPNet
  ingress : List ContivRule
  egress : List ContivRule
  deriving DecidableEq, Repr

abbrev Content := PodID → Option Rendered

structure RendererTxn where
  resync : Bool
  renders : List (PodID × Rendered)

def RendererTxn.apply (txn : RendererTxn) (content : Content) : Content :=
  assignAll (txn.renders.map fun r => (r.1, some r.2))
    (if txn.resync then fun _ => none else content)

/-- A commit may fail, with an error, and leave anything behind. -/
abbrev Failure := Option (String × Content)

def RendererTxn.commit (txn : RendererTxn) (failure : Failure)
    (content : Content) : Content × Option String :=
  match failure with
  | some (err, left) => (left, some err)
  | none => (txn.apply content, none)

/-! ## The commit -/

structure ProcessedPolicySet where
  policies : List ContivPolicy
  ingress : List ContivRule
  egress : List ContivRule

/-- The local variables of `Commit`.  The transactions of the renderers have
all got the same calls of `Render`. -/
structure CommitState where
  processed : List ProcessedPolicySet
  renders : List (PodID × Rendered)

def CommitState.render (s : CommitState) (pod : PodID) (podIPNet : IPNet)
    (set : ProcessedPolicySet) : CommitState :=
  { s with renders := s.renders ++ [(pod, ⟨podIPNet, set.ingress, set.egress⟩)] }

/-- Directions in policies are those of the pod, whereas those of rules are
the ones of the vswitch. -/
def processPolicies (lookupPod : LookupPod) (policies : List ContivPolicy) :
    Option ProcessedPolicySet := do
  let egress ← generateRules lookupPod .ingress policies
  let ingress ← generateRules lookupPod .egress policies
  return ⟨policies, ingress, egress⟩

/-- One round of the loop over the pods; `none` is a nil pointer
dereference. -/
def commitPod (lookupPod : LookupPod) (sort : PolicySort) (s : CommitState)
    (entry : PodID × List ContivPolicy) : Option CommitState :=
  match lookupPod entry.1 with
  | (false, _) => some s
  | (true, none) => none
  | (true, some podData) =>
      if podData.ipAddress = "" then some s
      else
        match getOneHostSubnet podData.ipAddress with
        | none => some s
        | some podIPNet =>
            let policies := sort.sort entry.2
            match (s.processed.filter fun set =>
              policiesEqual set.policies policies).getLast? with
            | some set => some (s.render entry.1 podIPNet set)
            | none => do
                let set ← processPolicies lookupPod policies
                return { s.render entry.1 podIPNet set with
                  processed := s.processed ++ [set] }

/-- What is open in a commit: the order of the pods, how policies are sorted,
which commits of renderers fail, and the order in which parallel commits
end. -/
structure CommitChoices where
  podOrder : RangeOrder (PodID × List ContivPolicy)
  sort : PolicySort
  failure : ℕ → Failure
  arrival : RangeOrder ℕ

structure Committed where
  contents : List Content
  err : Option String

def lastError (errors : List (Option String)) : Option String :=
  errors.foldl (fun wasError err => err.or wasError) none

/-- The transactions of the renderers are committed in sequence, or in
parallel with the results coming in any order. -/
def commitRenderers (choices : CommitChoices) (parallelRendering : Bool)
    (txn : RendererTxn) (contents : List Content) : Committed :=
  let commits := contents.mapIdx fun i content =>
    txn.commit (choices.failure i) content
  let order := if parallelRendering then
    choices.arrival.order (List.range contents.length)
  else List.range contents.length
  ⟨commits.map Prod.fst,
    lastError (order.map fun i => (commits[i]?).bind Prod.snd)⟩

def commit (choices : CommitChoices) (lookupPod : LookupPod)
    (parallelRendering resync : Bool)
    (config : AList fun _ : PodID => List ContivPolicy)
    (contents : List Content) : Option Committed := do
  let s ← (range choices.podOrder config).foldlM
    (commitPod lookupPod choices.sort) ⟨[], []⟩
  return if s.renders = [] then ⟨contents, none⟩
    else commitRenderers choices parallelRendering ⟨resync, s.renders⟩ contents

def configure (calls : List (PodID × List ContivPolicy)) :
    AList fun _ : PodID => List ContivPolicy :=
  calls.foldl (fun config call => config.insert call.1 call.2) ∅

/-! ## The loop over the pods -/

section Loop

variable {lookupPod : LookupPod} {sort : PolicySort}
  {s s' : CommitState} {entry : PodID × List ContivPolicy}

def Renderable (lookupPod : LookupPod) (pod : PodID) : Prop :=
  (knownPeer lookupPod pod).isSome = true

def ProcessedPolicySet.Valid (lookupPod : LookupPod)
    (set : ProcessedPolicySet) : Prop :=
  processPolicies lookupPod set.policies = some set

inductive CommitsPod (lookupPod : LookupPod) (sort : PolicySort)
    (s : CommitState) (entry : PodID × List ContivPolicy) :
    CommitState → Prop where
  | skip (hpod : knownPeer lookupPod entry.1 = none) :
      CommitsPod lookupPod sort s entry s
  | render (peer : PeerPod) (set : ProcessedPolicySet)
      (hpod : knownPeer lookupPod entry.1 = some peer)
      (hequal : policiesEqual set.policies (sort.sort entry.2) = true)
      (hset : set ∈ s.processed) :
      CommitsPod lookupPod sort s entry (s.render entry.1 peer.ipNet set)
  | process (peer : PeerPod) (set : ProcessedPolicySet)
      (hpod : knownPeer lookupPod entry.1 = some peer)
      (hset : processPolicies lookupPod (sort.sort entry.2) = some set) :
      CommitsPod lookupPod sort s entry
        { s.render entry.1 peer.ipNet set with
          processed := s.processed ++ [set] }

theorem commitsPod (h : commitPod lookupPod sort s entry = some s') :
    CommitsPod lookupPod sort s entry s' := by
  unfold commitPod at h
  split at h
  · next hlookup =>
      cases h
      exact .skip (by simp [knownPeer, hlookup])
  · cases h
  · next podData hlookup =>
      split_ifs at h with hip
      · cases h
        exact .skip (by simp [knownPeer, hlookup, hip])
      · split at h
        · next hnet =>
            cases h
            exact .skip (by simp [knownPeer, hlookup, hip, hnet])
        · next podIPNet hnet =>
            have hpod : knownPeer lookupPod entry.1 =
                some ⟨entry.1, podIPNet⟩ := by
              simp [knownPeer, hlookup, hip, hnet]
            simp only at h
            split at h
            · next set hset =>
                cases h
                have hmem := List.mem_of_getLast? hset
                rw [List.mem_filter] at hmem
                exact .render ⟨entry.1, podIPNet⟩ set hpod hmem.2 hmem.1
            · cases hset : processPolicies lookupPod (sort.sort entry.2) with
              | none =>
                  simp only [hset] at h
                  cases h
              | some set =>
                  simp only [hset] at h
                  cases h
                  exact .process ⟨entry.1, podIPNet⟩ set hpod hset

theorem processPolicies_policies {policies : List ContivPolicy}
    {set : ProcessedPolicySet}
    (h : processPolicies lookupPod policies = some set) :
    set.policies = policies := by
  unfold processPolicies at h
  simp only [Option.bind_eq_bind, Option.bind_eq_some_iff,
    Option.pure_def, Option.some.injEq] at h
  obtain ⟨egress, _, ingress, _, rfl⟩ := h
  rfl

theorem policiesEqual_refl (policies : List ContivPolicy) :
    policiesEqual policies policies = true := by
  simp [policiesEqual]

/-- What the transactions of the renderers have got after some entries: the
pods with a valid address, each with the rules of policies that have the IDs of
its own, and were configured for one of these pods. -/
structure Collected (lookupPod : LookupPod) (sort : PolicySort)
    (entries : List (PodID × List ContivPolicy)) (s : CommitState) :
    Prop where
  processed : ∀ set ∈ s.processed, set.Valid lookupPod ∧
    ∃ entry ∈ entries, Renderable lookupPod entry.1 ∧
      set.policies = sort.sort entry.2
  pods : s.renders.map Prod.fst = (entries.map Prod.fst).filter fun pod =>
      (knownPeer lookupPod pod).isSome
  rules : ∀ r ∈ s.renders, ∃ entry ∈ entries, entry.1 = r.1 ∧
    ∃ peer, knownPeer lookupPod r.1 = some peer ∧ r.2.podIP = peer.ipNet ∧
    ∃ set : ProcessedPolicySet, set.Valid lookupPod ∧
      (∃ entry' ∈ entries, Renderable lookupPod entry'.1 ∧
        set.policies = sort.sort entry'.2) ∧
      policiesEqual set.policies (sort.sort entry.2) = true ∧
      r.2.ingress = set.ingress ∧ r.2.egress = set.egress

theorem Collected.step {entries : List (PodID × List ContivPolicy)}
    (h : Collected lookupPod sort entries s)
    (hstep : CommitsPod lookupPod sort s entry s') :
    Collected lookupPod sort (entries ++ [entry]) s' := by
  have hmono : ∀ {e}, e ∈ entries → e ∈ entries ++ [entry] :=
    fun he => List.mem_append_left _ he
  have hlast : entry ∈ entries ++ [entry] := by simp
  have hprocessed : ∀ set ∈ s.processed, set.Valid lookupPod ∧
      ∃ e ∈ entries ++ [entry], Renderable lookupPod e.1 ∧
        set.policies = sort.sort e.2 := by
    intro set hset
    obtain ⟨hvalid, e, he, heq⟩ := h.processed set hset
    exact ⟨hvalid, e, hmono he, heq⟩
  have hrules : ∀ r ∈ s.renders, ∃ e ∈ entries ++ [entry], e.1 = r.1 ∧
      ∃ peer, knownPeer lookupPod r.1 = some peer ∧ r.2.podIP = peer.ipNet ∧
      ∃ set : ProcessedPolicySet, set.Valid lookupPod ∧
        (∃ e' ∈ entries ++ [entry], Renderable lookupPod e'.1 ∧
          set.policies = sort.sort e'.2) ∧
        policiesEqual set.policies (sort.sort e.2) = true ∧
        r.2.ingress = set.ingress ∧ r.2.egress = set.egress := by
    intro r hr
    obtain ⟨e, he, hpod, peer, hpeer, hip, set, hvalid, ⟨e', he', heq⟩,
      hrest⟩ := h.rules r hr
    exact ⟨e, hmono he, hpod, peer, hpeer, hip, set, hvalid,
      ⟨e', hmono he', heq⟩, hrest⟩
  cases hstep with
  | skip hpod =>
      refine ⟨hprocessed, ?_, hrules⟩
      rw [h.pods, List.map_append, List.filter_append]
      simp [hpod]
  | render peer set hpod hequal hset =>
      refine ⟨hprocessed, ?_, ?_⟩
      · simp [CommitState.render, h.pods, hpod]
      · intro r hr
        rcases List.mem_append.mp hr with hold | hnew
        · exact hrules r hold
        · rw [List.mem_singleton.mp hnew]
          obtain ⟨hvalid, hconfigured⟩ := hprocessed set hset
          exact ⟨entry, hlast, rfl, peer, hpod, rfl, set, hvalid,
            hconfigured, hequal, rfl, rfl⟩
  | process peer set hpod hset =>
      have hpolicies := processPolicies_policies hset
      have hknown : Renderable lookupPod entry.1 := by simp [Renderable, hpod]
      have hvalid : set.Valid lookupPod := by
        rw [ProcessedPolicySet.Valid, hpolicies]
        exact hset
      refine ⟨?_, ?_, ?_⟩
      · intro set' hset'
        rcases List.mem_append.mp hset' with hold | hnew
        · exact hprocessed set' hold
        · rw [List.mem_singleton.mp hnew]
          exact ⟨hvalid, entry, hlast, hknown, hpolicies⟩
      · simp [CommitState.render, h.pods, hpod]
      · intro r hr
        rcases List.mem_append.mp hr with hold | hnew
        · exact hrules r hold
        · rw [List.mem_singleton.mp hnew]
          refine ⟨entry, hlast, rfl, peer, hpod, rfl, set, hvalid,
            ⟨entry, hlast, hknown, hpolicies⟩, ?_, rfl, rfl⟩
          rw [hpolicies]
          exact policiesEqual_refl _

theorem collected_foldlM {entries : List (PodID × List ContivPolicy)}
    (h : entries.foldlM (commitPod lookupPod sort) ⟨[], []⟩ = some s) :
    Collected lookupPod sort entries s := by
  induction entries using List.reverseRecOn generalizing s with
  | nil =>
      cases h
      exact ⟨by simp, rfl, by simp⟩
  | append_singleton entries entry ih =>
      rw [List.foldlM_append, Option.bind_eq_bind, Option.bind_eq_some_iff] at h
      obtain ⟨mid, hmid, hlast⟩ := h
      have hlast' : commitPod lookupPod sort mid entry = some s := by
        simpa using hlast
      exact (ih hmid).step (commitsPod hlast')

theorem exists_foldlM (h : lookupPod.Sound)
    (entries : List (PodID × List ContivPolicy)) (s : CommitState) :
    ∃ s', entries.foldlM (commitPod lookupPod sort) s = some s' := by
  induction entries generalizing s with
  | nil => exact ⟨s, rfl⟩
  | cons entry entries ih =>
      have hstep : ∃ s', commitPod lookupPod sort s entry = some s' := by
        have hpod := h entry.1
        unfold commitPod
        rcases hlookup : lookupPod entry.1 with ⟨found, data⟩
        rw [hlookup] at hpod
        cases found with
        | false => exact ⟨_, rfl⟩
        | true =>
            cases data with
            | none => simp at hpod
            | some data =>
                simp only
                split_ifs
                · exact ⟨_, rfl⟩
                · split
                  · exact ⟨_, rfl⟩
                  · split
                    · exact ⟨_, rfl⟩
                    · simp only [processPolicies, generateRules_eq h]
                      exact ⟨_, rfl⟩
      obtain ⟨s', hs'⟩ := hstep
      obtain ⟨s'', hs''⟩ := ih s'
      exact ⟨s'', by rw [List.foldlM_cons, hs']; exact hs''⟩

end Loop

end ContivVPP.Configurator
