import ContivVPP.AffectedPods
import ContivVPP.Incremental

/-!
# Runs of the policy processor

Changes of pods and policies are registered in the cache and announced to the
processor, which configures the pods that it takes for affected.
-/

namespace ContivVPP.Processor

open GoMap K8s Net Configurator PolicyCache Incremental PartialLoops

/-! ## The system -/

structure State where
  datastore : Datastore
  cache : Cache
  podIPAddressMap : PodIPAddressMap
  configured : PodID → List ContivPolicy

def State.init : State := ⟨.empty, .init, ∅, fun _ => []⟩

structure Orders where
  names : RangeOrder String
  policies : RangeOrder (String × Policy)

abbrev Calls := List (PodID × List ContivPolicy)

def State.notify (hostNetwork : IPNet) (orders : Notification → Orders)
    (s : State) (stage : Stage) : Option (State × Calls) := do
  let orders := orders stage.notification
  let api := PolicyCacheAPI.of orders.names orders.policies stage.cache
  let handled ← handle orders.names api hostNetwork s.podIPAddressMap
    stage.notification
  let calls ← processCalls api handled.2
  return ({ s with
    cache := stage.cache
    podIPAddressMap := handled.1
    configured := assignAll calls s.configured }, calls)

inductive Change
  | putPod (pod : Pod) (hvalid : pod.Valid)
  | putPolicy (policy : Policy) (hproper : policy.Proper)
  | deletePod (id : PodID) (hvalid : ValidName id.ns ∧ ValidName id.name)
  | deletePolicy (id : PolicyID) (hvalid : ValidName id.ns ∧ ValidName id.name)

def Change.event : Change → Event
  | .putPod pod hvalid => .put (.pod pod) ⟨hvalid.ns, hvalid.name⟩
  | .putPolicy policy hproper =>
      .put (.policy policy) ⟨hproper.valid.ns, hproper.valid.name⟩
  | .deletePod id _ => .delete (podKey id.name id.ns)
  | .deletePolicy id _ => .delete (policyKey id.name id.ns)

def Change.notifications (ds : Datastore) : Change → List Notification
  | .putPod pod _ => podKind.putNotifications pod
      (podKind.previous (ds.values.lookup (podKey pod.name pod.ns)))
  | .putPolicy policy _ => policyKind.putNotifications policy
      (policyKind.previous (ds.values.lookup (policyKey policy.name policy.ns)))
  | .deletePod id _ => [.delPod ((podKind.previous (ds.values.lookup
      (podKey id.name id.ns))).getD podKind.empty)]
  | .deletePolicy id _ => [.delPolicy ((policyKind.previous
      (ds.values.lookup (policyKey id.name id.ns))).getD policyKind.empty)]

structure Delivery where
  change : Change
  orders : Notification → Orders

def State.notifyAll (hostNetwork : IPNet) (orders : Notification → Orders) :
    State → List Stage → Option (State × Calls)
  | s, [] => some (s, [])
  | s, stage :: stages => do
      let first ← s.notify hostNetwork orders stage
      let rest ← first.1.notifyAll hostNetwork orders stages
      return (rest.1, first.2 ++ rest.2)

/-- The state after a change and the calls of `Configure` it has led to. -/
def State.deliver (hostNetwork : IPNet) (s : State) (d : Delivery) :
    Option (State × Calls) := do
  let stages ← (d.change.event.stages s.datastore s.cache).toOption
  { s with datastore := d.change.event.content s.datastore }.notifyAll
    hostNetwork d.orders stages

def State.run (hostNetwork : IPNet) (deliveries : List Delivery) : Option State :=
  deliveries.foldlM (fun s d => (s.deliver hostNetwork d).map Prod.fst) .init

/-! ## Pods of the node -/

/-- The pod is outside of `kube-system`, and its address is one of the
node. -/
def OfNode (hostNetwork : IPNet) (pod : Pod) : Prop :=
  pod.ns ≠ "kube-system" ∧ pod.ipAddress ≠ "" ∧
    hostNetwork.contains ((parseIP pod.ipAddress).getD []) = true

def OnNode (hostNetwork : IPNet) (c : Cache) (pod : PodID) : Prop :=
  ∃ data, c.configuredPods.lookup pod.string = some data ∧ OfNode hostNetwork data

/-- The policies that `Process` computes for a pod, up to order. -/
def computed (c : Cache) (pod : PodID) : Option (Finset PolicyView) :=
  (processPod (.of .insertion .insertion c) pod).map views

/-- The pods of the node were last configured with the policies that `Process`
computes for them. -/
def State.Current (hostNetwork : IPNet) (s : State) : Prop :=
  UpToDate (OnNode hostNetwork) computed s.cache fun pod =>
    some (views (s.configured pod))

/-! ## The invariant -/

structure State.Mirrors (s : State) : Prop where
  cache : Mirrored s.datastore s.cache
  proper : s.datastore.Proper

theorem proper_put {ds : Datastore} (h : ds.Proper) {obj : Object}
    (hvalid : obj.Valid)
    (hpod : ∀ pod, obj = .pod pod → pod.Valid)
    (hpolicy : ∀ policy, obj = .policy policy → policy.Proper) :
    (ds.put obj hvalid).Proper := by
  constructor
  · intro pod hholds
    rcases (Datastore.holds_put hvalid).mp hholds with heq | hold
    · exact hpod pod heq.symm
    · exact h.pods pod hold.2
  · intro policy hholds
    rcases (Datastore.holds_put hvalid).mp hholds with heq | hold
    · exact hpolicy policy heq.symm
    · exact h.policies policy hold.2

theorem proper_delete {ds : Datastore} (h : ds.Proper) (key : String) :
    (ds.delete key).Proper where
  pods pod hholds := h.pods pod (Datastore.holds_delete.mp hholds).2
  policies policy hholds :=
    h.policies policy (Datastore.holds_delete.mp hholds).2

theorem Change.proper {ds : Datastore} (h : ds.Proper) (change : Change) :
    (change.event.content ds).Proper := by
  cases change with
  | putPod pod hvalid =>
      have hobject : (Object.pod pod).Valid := ⟨hvalid.ns, hvalid.name⟩
      refine proper_put h hobject ?_ ?_
      · intro pod' heq
        cases heq
        exact hvalid
      · intro policy heq
        cases heq
  | putPolicy policy hproper =>
      have hobject : (Object.policy policy).Valid :=
        ⟨hproper.valid.ns, hproper.valid.name⟩
      refine proper_put h hobject ?_ ?_
      · intro pod heq
        cases heq
      · intro policy' heq
        cases heq
        exact hproper
  | deletePod id _ => exact proper_delete h _
  | deletePolicy id _ => exact proper_delete h _

/-- Every stage of an event, and the cache itself if there is none, mirrors the
new content of the data store. -/
def StagesMirror (ds' : Datastore) (c : Cache) (stages : List Stage) : Prop :=
  (∀ stage ∈ stages, Mirrored ds' stage.cache) ∧ (stages = [] → Mirrored ds' c)

variable {stages : List Stage}

theorem delete_stagesMirror {ds : Datastore} {c : Cache} (h : Mirrored ds c)
    {key : String} (hstages : (Event.delete key).stages ds c = .ok stages) :
    StagesMirror (ds.delete key) c stages := by
  cases hlookup : ds.values.lookup key with
  | none =>
      obtain ⟨stages', hstages', hall⟩ := h.delete_absent hlookup
      obtain rfl : stages = stages' :=
        Except.ok.inj (hstages.symm.trans hstages')
      refine ⟨hall, fun _ => h.delete_other fun obj hobj hkey => ?_⟩
      rw [Datastore.Holds, hkey, hlookup] at hobj
      cases hobj
  | some obj =>
      obtain ⟨_, rfl⟩ := ds.own key obj hlookup
      obtain ⟨stage, hstages', hmirrored⟩ := h.delete_object hlookup
      obtain rfl : stages = [stage] :=
        Except.ok.inj (hstages.symm.trans hstages')
      exact ⟨by simpa using hmirrored, by simp⟩

theorem put_stagesMirror {ds : Datastore} {c : Cache} (h : Mirrored ds c)
    {obj : Object} (hvalid : obj.Valid)
    (hpods : ∀ policy, obj = .policy policy → policy.pods ≠ none)
    (hstages : (Event.put obj hvalid).stages ds c = .ok stages) :
    StagesMirror (ds.put obj hvalid) c stages := by
  obtain ⟨stages', hstages', hne, hall⟩ := h.put hvalid hpods
  obtain rfl : stages = stages' :=
    Except.ok.inj (hstages.symm.trans hstages')
  exact ⟨hall, fun hnil => absurd hnil hne⟩

theorem Change.stagesMirror {ds : Datastore} {c : Cache} (h : Mirrored ds c)
    (change : Change) (hstages : change.event.stages ds c = .ok stages) :
    StagesMirror (change.event.content ds) c stages := by
  cases change with
  | putPod pod hvalid =>
      refine put_stagesMirror h _ ?_ hstages
      intro policy heq
      cases heq
  | putPolicy policy hproper =>
      refine put_stagesMirror h _ ?_ hstages
      intro policy' heq
      cases heq
      obtain ⟨selector, hpods, _⟩ := hproper.valid.pods
      simp [hpods]
  | deletePod id _ => exact delete_stagesMirror h hstages
  | deletePolicy id _ => exact delete_stagesMirror h hstages

theorem Change.notifications_eq {ds : Datastore} {c : Cache} (change : Change)
    (hstages : change.event.stages ds c = .ok stages) :
    stages.map Stage.notification = change.notifications ds := by
  cases change with
  | putPod pod hvalid =>
      have hobject : (Object.pod pod).Valid := ⟨hvalid.ns, hvalid.name⟩
      simp only [Change.event, Event.stages] at hstages
      rw [changePropagateEvent_of_key hobject rfl] at hstages
      exact Kind.propagate_put_notifications hstages
  | putPolicy policy hproper =>
      have hobject : (Object.policy policy).Valid :=
        ⟨hproper.valid.ns, hproper.valid.name⟩
      simp only [Change.event, Event.stages] at hstages
      rw [changePropagateEvent_of_key hobject rfl] at hstages
      exact Kind.propagate_put_notifications hstages
  | deletePod id hvalid =>
      have hobject : (Object.pod ⟨id.name, id.ns, [], ""⟩).Valid := hvalid
      simp only [Change.event, Event.stages] at hstages
      rw [changePropagateEvent_of_key hobject rfl] at hstages
      exact Kind.propagate_delete_notifications hstages
  | deletePolicy id hvalid =>
      have hobject : (Object.policy
          ⟨id.name, id.ns, none, .default, [], []⟩).Valid := hvalid
      simp only [Change.event, Event.stages] at hstages
      rw [changePropagateEvent_of_key hobject rfl] at hstages
      exact Kind.propagate_delete_notifications hstages

/-! ## What a change does -/

section Deliver

variable {hostNetwork : IPNet} {orders : Notification → Orders}
  {s s' : State} {calls : Calls}

/-- The call is for policies that were computed from a cache with the objects
of the data store. -/
def ComputedFrom (ds : Datastore) (call : PodID × List ContivPolicy) : Prop :=
  ∃ names policies c, Mirrored ds c ∧
    processPod (.of names policies c) call.1 = some call.2

structure Notified (s : State) (s' : State) (calls : Calls) : Prop where
  datastore : s'.datastore = s.datastore
  configured : s'.configured = assignAll calls s.configured
  computed : ∀ call ∈ calls, ComputedFrom s.datastore call

theorem notify_spec {stage : Stage}
    (h : s.notify hostNetwork orders stage = some (s', calls))
    (hstage : Mirrored s.datastore stage.cache) :
    s'.cache = stage.cache ∧ Notified s s' calls := by
  simp only [State.notify, processCalls, bind_eq_some_iff, pure_eq_some_iff,
    Prod.mk.injEq] at h
  obtain ⟨handled, _, calls', hcalls, rfl, rfl⟩ := h
  refine ⟨rfl, rfl, rfl, ?_⟩
  intro call hcall
  rw [mem_mapM_iff hcalls] at hcall
  obtain ⟨pod, _, hpod⟩ := hcall
  rw [Option.map_eq_some_iff] at hpod
  obtain ⟨policies, hpolicies, rfl⟩ := hpod
  exact ⟨_, _, stage.cache, hstage, hpolicies⟩

theorem Notified.trans {s₁ s₂ : State} {calls' : Calls}
    (h : Notified s s₁ calls) (h' : Notified s₁ s₂ calls') :
    Notified s s₂ (calls ++ calls') where
  datastore := h'.datastore.trans h.datastore
  configured := by
    rw [h'.configured, h.configured]
    exact List.foldl_append.symm
  computed call hcall := by
    rcases List.mem_append.mp hcall with hcall | hcall
    · exact h.computed call hcall
    · exact h.datastore ▸ h'.computed call hcall

theorem notifyAll_spec
    (h : s.notifyAll hostNetwork orders stages = some (s', calls))
    (hstages : StagesMirror s.datastore s.cache stages) :
    Mirrored s.datastore s'.cache ∧ Notified s s' calls := by
  induction stages generalizing s calls with
  | nil =>
      cases h
      exact ⟨hstages.2 rfl, rfl, rfl, by simp⟩
  | cons stage stages ih =>
      simp only [State.notifyAll, bind_eq_some_iff, pure_eq_some_iff,
        Prod.mk.injEq] at h
      obtain ⟨⟨s₁, first⟩, hfirst, ⟨s₂, rest⟩, hrest, rfl, rfl⟩ := h
      have hstage := hstages.1 stage List.mem_cons_self
      obtain ⟨hcache, hnotified⟩ := notify_spec hfirst hstage
      have hmirror : StagesMirror s₁.datastore s₁.cache stages := by
        rw [hnotified.datastore, hcache]
        exact ⟨fun st hst => hstages.1 st (List.mem_cons_of_mem stage hst),
          fun _ => hstage⟩
      obtain ⟨hcache', hnotified'⟩ := ih hrest hmirror
      exact ⟨hnotified.datastore ▸ hcache', hnotified.trans hnotified'⟩

section

variable {d : Delivery} (h : s.deliver hostNetwork d = some (s', calls))
include h

theorem deliver_eq_some :
    ∃ stages, d.change.event.stages s.datastore s.cache = .ok stages ∧
      { s with datastore := d.change.event.content s.datastore }.notifyAll
        hostNetwork d.orders stages = some (s', calls) := by
  simp only [State.deliver, bind_eq_some_iff] at h
  obtain ⟨stages, hstages, hall⟩ := h
  cases hresult : d.change.event.stages s.datastore s.cache with
  | error e =>
      rw [hresult] at hstages
      cases hstages
  | ok stages' =>
      rw [hresult] at hstages
      cases hstages
      exact ⟨stages, rfl, hall⟩

theorem deliver_datastore (hs : s.Mirrors) :
    s'.datastore = d.change.event.content s.datastore := by
  obtain ⟨stages, hstages, hall⟩ := deliver_eq_some h
  exact (notifyAll_spec hall (d.change.stagesMirror hs.cache hstages)).2.datastore

theorem deliver_spec (hs : s.Mirrors) :
    s'.Mirrors ∧ Step (OnNode hostNetwork) computed
      (fun pod => ∃ policies, (pod, policies) ∈ calls)
      (fun pod => some (views (s.configured pod))) s'.cache
      (fun pod => some (views (s'.configured pod))) := by
  obtain ⟨stages, hstages, hall⟩ := deliver_eq_some h
  obtain ⟨hmirrored, hnotified⟩ :=
    notifyAll_spec hall (d.change.stagesMirror hs.cache hstages)
  have hproper := d.change.proper hs.proper
  refine ⟨⟨?_, ?_⟩, ?_, ?_⟩
  · rw [hnotified.datastore]
    exact hmirrored
  · rw [hnotified.datastore]
    exact hproper
  · intro pod _ hcall
    obtain ⟨policies, hcall⟩ := hcall
    have hlast : (pod, s'.configured pod) ∈ calls := by
      rw [hnotified.configured]
      exact mem_of_assignAll ⟨_, hcall, rfl⟩
    obtain ⟨names, order, c, hc, hprocess⟩ := hnotified.computed _ hlast
    exact (processPod_views_of_mirrored names .insertion order .insertion hc
      hmirrored hproper hprocess).symm
  · intro pod hnot
    rw [hnotified.configured, assignAll_of_notMem]
    intro call hcall heq
    exact hnot ⟨call.2, heq ▸ hcall⟩

theorem deliver_configured (hs : s.Mirrors) (pod : PodID) :
    s'.configured pod = s.configured pod ∨
      ComputedFrom s'.datastore (pod, s'.configured pod) := by
  obtain ⟨stages, hstages, hall⟩ := deliver_eq_some h
  obtain ⟨_, hnotified⟩ :=
    notifyAll_spec hall (d.change.stagesMirror hs.cache hstages)
  by_cases hcall : ∃ call ∈ calls, call.1 = pod
  · right
    rw [hnotified.datastore]
    refine hnotified.computed _ ?_
    rw [hnotified.configured]
    exact mem_of_assignAll hcall
  · left
    rw [hnotified.configured, assignAll_of_notMem]
    exact fun call hmem heq => hcall ⟨call, hmem, heq⟩

end

end Deliver

/-! ## Runs -/

section Run

variable {hostNetwork : IPNet}

theorem init_mirrors : State.init.Mirrors where
  cache := mirrored_empty
  proper := by
    have hnone : ∀ obj, ¬ Datastore.empty.Holds obj := by
      intro obj hholds
      simp [Datastore.Holds, Datastore.empty] at hholds
    exact ⟨fun pod h => absurd h (hnone _), fun policy h =>
      absurd h (hnone _)⟩

theorem init_current : State.init.Current hostNetwork := by
  intro pod hpod
  obtain ⟨data, hlookup, _⟩ := hpod
  simp [State.init, Cache.init] at hlookup

theorem run_append {before : List Delivery} {d : Delivery} {s' : State} :
    State.run hostNetwork (before ++ [d]) = some s' ↔
      ∃ s calls, State.run hostNetwork before = some s ∧
        s.deliver hostNetwork d = some (s', calls) := by
  rw [State.run, List.foldlM_append, bind_eq_some_iff]
  simp [State.run]

theorem run_mirrors {run : List Delivery} {s : State}
    (h : State.run hostNetwork run = some s) : s.Mirrors := by
  induction run using List.reverseRecOn generalizing s with
  | nil =>
      cases h
      exact init_mirrors
  | append_singleton before d ih =>
      obtain ⟨s₀, calls, hbefore, hdeliver⟩ := run_append.mp h
      exact (deliver_spec hdeliver (ih hbefore)).1

end Run

/-! ## The pods that a change is processed for -/

section Affected

variable {hostNetwork : IPNet} {orders : Notification → Orders}
  {s s' : State} {calls : Calls} {pod : PodID} {ds : Datastore} {c c' : Cache}

theorem onNode_congr (h : Mirrored ds c) (h' : Mirrored ds c')
    (hpod : OnNode hostNetwork c pod) : OnNode hostNetwork c' pod := by
  obtain ⟨data, hlookup, hdata⟩ := hpod
  exact ⟨data, h.lookup_pods h' _ ▸ hlookup, hdata⟩

theorem computed_eq (hpods : c.PodsRegistered) (hpods' : c'.PodsRegistered)
    (hpolicies : c.PoliciesRegistered) (hpolicies' : c'.PoliciesRegistered)
    (hsame : ∀ policy, c.FindsFor pod policy ↔ c'.FindsFor pod policy)
    (hfound : ∀ policy, c.FindsFor pod policy → policy.Proper ∧
      ∀ s, policy.PeerSelector s →
        ∀ id, c.Finds policy.ns s id ↔ c'.Finds policy.ns s id) :
    computed c pod = computed c' pod := by
  ext v
  constructor
  · intro hv
    obtain ⟨policies, hprocess, rfl⟩ := Option.map_eq_some_iff.mp hv
    exact processPod_views _ _ _ _ hpods hpods' hpolicies hpolicies' hsame
      hfound hprocess
  · intro hv
    obtain ⟨policies, hprocess, rfl⟩ := Option.map_eq_some_iff.mp hv
    refine processPod_views _ _ _ _ hpods' hpods hpolicies' hpolicies
      (fun policy => (hsame policy).symm) (fun policy hfinds => ?_) hprocess
    obtain ⟨hproper, hpeers⟩ := hfound policy ((hsame policy).mpr hfinds)
    exact ⟨hproper, fun s hs id => (hpeers s hs id).symm⟩

theorem computed_congr (h : Mirrored ds c) (h' : Mirrored ds c')
    (hds : ds.Proper) : computed c pod = computed c' pod :=
  computed_eq (h.podsRegistered hds) (h'.podsRegistered hds)
    (h.policiesRegistered hds) (h'.policiesRegistered hds)
    (fun _ => h.findsFor_congr h') fun policy hfinds =>
      ⟨hds.policies policy ((h.policies _ _).mp hfinds.lookup).2,
        fun _ _ _ => h.finds_congr h'⟩

theorem notify_calls {stage : Stage} (hds : ds.Proper)
    (hstage : Mirrored ds stage.cache)
    (hproper : NotificationProper stage.notification)
    (h : s.notify hostNetwork orders stage = some (s', calls)) :
    (∃ policies, (pod, policies) ∈ calls) ↔
      Affects hostNetwork s.podIPAddressMap stage.cache pod
        stage.notification := by
  simp only [State.notify, processCalls, bind_eq_some_iff, pure_eq_some_iff,
    Prod.mk.injEq] at h
  obtain ⟨⟨ipAddresses, pods⟩, hhandled, calls', hcalls, rfl, rfl⟩ := h
  rw [← mem_handle (hstage.podsRegistered hds)
    (hstage.policiesRegistered hds) hproper hhandled]
  constructor
  · intro hcall
    obtain ⟨policies, hcall⟩ := hcall
    obtain ⟨x, hx, heq⟩ := (mem_mapM_iff hcalls).mp hcall
    obtain ⟨_, _, heq⟩ := Option.map_eq_some_iff.mp heq
    exact (Prod.mk.inj heq).1 ▸ hx
  · intro hpod
    obtain ⟨call, hcall, heq⟩ := exists_of_mapM hcalls hpod
    obtain ⟨policies, _, rfl⟩ := Option.map_eq_some_iff.mp heq
    exact ⟨policies, hcall⟩

/-- A pod is configured for the stages of a change that affect it.  Only the
first one can be the deletion of a pod. -/
theorem notifyAll_calls (hds : ds.Proper) (hc : Mirrored ds c)
    (hstages : ∀ stage ∈ stages, Mirrored ds stage.cache ∧
      NotificationProper stage.notification)
    (hdel : ∀ stage ∈ stages.tail, ∀ q, stage.notification ≠ .delPod q)
    (h : s.notifyAll hostNetwork orders stages = some (s', calls)) :
    (∃ policies, (pod, policies) ∈ calls) ↔
      ∃ stage ∈ stages, Affects hostNetwork s.podIPAddressMap c pod
        stage.notification := by
  induction stages generalizing s calls with
  | nil =>
      cases h
      simp
  | cons stage stages ih =>
      simp only [State.notifyAll, bind_eq_some_iff, pure_eq_some_iff,
        Prod.mk.injEq] at h
      obtain ⟨⟨s₁, first⟩, hfirst, ⟨s₂, rest⟩, hrest, rfl, rfl⟩ := h
      obtain ⟨⟨hmirrored, hproper⟩, hrestAll⟩ :=
        List.forall_mem_cons.mp hstages
      have hhead : (∃ policies, (pod, policies) ∈ first) ↔
          Affects hostNetwork s.podIPAddressMap stage.cache pod
            stage.notification :=
        notify_calls hds hmirrored hproper hfirst
      have htail := ih hrestAll
        (fun st hst => hdel st (List.mem_of_mem_tail hst)) hrest
      have hmap : (∃ st ∈ stages, Affects hostNetwork s₁.podIPAddressMap c pod
          st.notification) ↔ ∃ st ∈ stages, Affects hostNetwork
            s.podIPAddressMap c pod st.notification :=
        exists_congr fun st => and_congr_right fun hst =>
          affects_map (hdel st hst)
      rw [List.exists_mem_cons_iff, ← hmap, ← htail,
        ← affects_congr hmirrored hc, ← hhead]
      simp only [List.mem_append, exists_or]

theorem mem_previous_policy (hds : ds.Proper) {key : String} {policy : Policy}
    (h : policyKind.previous (ds.values.lookup key) = some policy) :
    policy.Valid := by
  obtain ⟨obj, hobj, hvalue⟩ := Option.bind_eq_some_iff.mp h
  cases obj with
  | policy data =>
      cases hvalue
      obtain ⟨_, rfl⟩ := ds.own key _ hobj
      exact (hds.policies _ hobj).valid
  | pod data => cases hvalue
  | ns data => cases hvalue

theorem Change.notificationProper (hds : ds.Proper) (change : Change) :
    (∀ n ∈ change.notifications ds, NotificationProper n) ∨
      ∀ c, Mirrored ds c → Mirrored (change.event.content ds) c := by
  cases change with
  | putPod pod hvalid =>
      left
      intro n hn
      rcases Kind.mem_putNotifications.mp hn with ⟨old, _, rfl⟩ | rfl
      · exact hvalid
      · trivial
  | putPolicy policy hproper =>
      left
      intro n hn
      rcases Kind.mem_putNotifications.mp hn with ⟨old, hprev, rfl⟩ | rfl
      · exact ⟨mem_previous_policy hds hprev, hproper.valid⟩
      · exact hproper.valid
  | deletePod id _ =>
      left
      intro n hn
      obtain rfl := List.mem_singleton.mp hn
      trivial
  | deletePolicy id hvalid =>
      cases hlookup : ds.values.lookup (policyKey id.name id.ns) with
      | none =>
          right
          intro c hc
          refine hc.delete_other fun obj hobj hkey => ?_
          rw [Datastore.Holds, hkey, hlookup] at hobj
          cases hobj
      | some obj =>
          left
          intro n hn
          obtain rfl := List.mem_singleton.mp hn
          obtain ⟨hobj, hkey⟩ := ds.own _ obj hlookup
          have hnamed : (Object.policy
              ⟨id.name, id.ns, none, .default, [], []⟩).Valid := hvalid
          obtain ⟨old, rfl⟩ := policyKind_named.exists_object obj
            ⟨id.name, id.ns, none, .default, [], []⟩ hobj hnamed hkey.symm
          have hprev : policyKind.previous (ds.values.lookup
              (policyKey id.name id.ns)) = some old := by
            rw [hlookup]
            rfl
          rw [hprev]
          exact mem_previous_policy hds hprev

theorem Change.notifications_tail (ds : Datastore) (change : Change) :
    ∀ n ∈ (change.notifications ds).tail, ∀ q, n ≠ .delPod q := by
  have hput : ∀ {β : Type} (kind : Kind β) (v : β) (u : Option β),
      (∀ q, kind.add v ≠ .delPod q) →
      ∀ n ∈ (kind.putNotifications v u).tail, ∀ q, n ≠ .delPod q := by
    intro β kind v u hadd n hn
    cases u with
    | none => simp [Kind.putNotifications] at hn
    | some u =>
        simp only [Kind.putNotifications, List.tail_cons,
          List.mem_singleton] at hn
        subst hn
        exact hadd
  cases change with
  | putPod pod _ =>
      refine hput podKind pod _ ?_
      intro q heq
      cases heq
  | putPolicy policy _ =>
      refine hput policyKind policy _ ?_
      intro q heq
      cases heq
  | deletePod | deletePolicy => simp [notifications]

theorem deliver_calls {d : Delivery}
    (h : s.deliver hostNetwork d = some (s', calls)) (hs : s.Mirrors)
    (hproper : ∀ n ∈ d.change.notifications s.datastore, NotificationProper n)
    (hc : Mirrored (d.change.event.content s.datastore) c) :
    (∃ policies, (pod, policies) ∈ calls) ↔
      ∃ n ∈ d.change.notifications s.datastore,
        Affects hostNetwork s.podIPAddressMap c pod n := by
  obtain ⟨stages, hstages, hall⟩ := deliver_eq_some h
  have hnotifications := d.change.notifications_eq hstages
  have hmirror := d.change.stagesMirror hs.cache hstages
  have htail := d.change.notifications_tail s.datastore
  rw [← hnotifications] at hproper htail ⊢
  simp only [← List.map_tail, List.forall_mem_map] at hproper htail
  rw [notifyAll_calls (d.change.proper hs.proper) hc
    (fun stage hstage => ⟨hmirror.1 stage hstage, hproper stage hstage⟩)
    htail hall]
  simp

end Affected

end ContivVPP.Processor
