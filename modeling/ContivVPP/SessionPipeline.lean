import ContivVPP.ProcessorResync
import ContivVPP.ProcessorRun
import ContivVPP.RenderCalls
import ContivVPP.RuleNetworks
import ContivVPP.SessionTraces

/-!
# From changes of pods and policies to session rules

The processor handles a change, the configurator commits the policies that it
has computed, and the VPPTCP renderer puts the rules of each rendered pod into
the cache of session rules, under the index of the namespace of the pod.  A
transaction starts from the cached configuration, so a namespace keeps the
rules that it was last given.
-/

namespace ContivVPP.SessionPipeline

open GoMap K8s Net Configurator PolicyCache Processor SessionCache PartialLoops

/-! ## The system -/

structure TxnChoices where
  configurator : Configurator.CommitChoices
  getNsIndex : PodID → Option UInt32
  changes : ChangesOrders
  commit : RefreshOrders

structure Delivery extends Processor.Delivery where
  choices : Notification → TxnChoices

/-- The processor with the cache of the renderer.  For each namespace,
`rendered` is the pod it was last updated for, with what the policy cache held
then. -/
structure System where
  processor : State
  cache : SessionRuleCache
  rendered : UInt32 → Option (PodID × Cache)

def System.init : System := ⟨.init, .init, fun _ => none⟩

structure Update where
  nsIndex : UInt32
  pod : PodID
  nsConfig : NamespaceConfig

/-- The calls of `Render` for pods without a namespace index are skipped. -/
def updates (getNsIndex : PodID → Option UInt32)
    (renders : List (PodID × Rendered)) : List Update :=
  renders.filterMap fun r => (getNsIndex r.1).map fun nsIndex =>
    ⟨nsIndex, r.1, ⟨r.2.podIP, r.2.ingress, r.2.egress⟩⟩

def rendererTxn (choices : TxnChoices) (calls : List Update) : CommittedTxn :=
  ⟨false, calls.map (fun u => .update u.nsIndex u.nsConfig) ++
    [.changes choices.changes], choices.commit⟩

section System

variable (hostNetwork : IPNet) (md5Hash : String → String) (tagPrefix : String)

/-- The transaction of the renderer; there is none without a pod to render. -/
def System.commit (choices : TxnChoices) (renders : List (PodID × Rendered))
    (s : System) : System :=
  if renders = [] then s
  else
    let calls := updates choices.getNsIndex renders
    { s with
      cache := (rendererTxn choices calls).apply md5Hash tagPrefix s.cache
      rendered := assignAll (calls.map fun u =>
        (u.nsIndex, some (u.pod, s.processor.cache))) s.rendered }

def System.notify (d : Delivery) (s : System) (stage : Stage) :
    Option System := do
  let handled ← s.processor.notify hostNetwork d.orders stage
  let choices := d.choices stage.notification
  let renders ← renderCalls choices.configurator (lookupPod stage.cache)
    (configure handled.2)
  return { s with processor := handled.1 }.commit md5Hash tagPrefix choices
    renders

def System.deliver (s : System) (d : Delivery) : Option System := do
  let stages ← (d.change.event.stages s.processor.datastore
    s.processor.cache).toOption
  stages.foldlM (System.notify hostNetwork md5Hash tagPrefix d)
    { s with
      processor := { s.processor with
        datastore := d.change.event.content s.processor.datastore } }

def System.run (deliveries : List Delivery) : Option System :=
  deliveries.foldlM (System.deliver hostNetwork md5Hash tagPrefix) .init

end System

/-! ## The processor of the system -/

section Processor

variable {hostNetwork : IPNet} {md5Hash : String → String}
  {tagPrefix : String} {s s' : System} {d : Delivery}

theorem commit_processor {choices : TxnChoices}
    {renders : List (PodID × Rendered)} :
    (s.commit md5Hash tagPrefix choices renders).processor = s.processor := by
  unfold System.commit
  split_ifs <;> rfl

theorem notify_eq_some {stage : Stage}
    (h : s.notify hostNetwork md5Hash tagPrefix d stage = some s') :
    ∃ processor calls renders, s.processor.notify hostNetwork d.orders stage =
        some (processor, calls) ∧
      renderCalls (d.choices stage.notification).configurator
        (lookupPod stage.cache) (configure calls) = some renders ∧
      s' = { s with processor := processor }.commit md5Hash tagPrefix
        (d.choices stage.notification) renders := by
  simp only [System.notify, bind_eq_some_iff, pure_eq_some_iff] at h
  obtain ⟨⟨processor, calls⟩, hnotify, renders, hrenders, rfl⟩ := h
  exact ⟨processor, calls, renders, hnotify, hrenders, rfl⟩

theorem notify_cache {orders : Notification → Orders} {p p' : State}
    {stage : Stage} {calls : Calls}
    (h : p.notify hostNetwork orders stage = some (p', calls)) :
    p'.cache = stage.cache := by
  simp only [State.notify, bind_eq_some_iff, pure_eq_some_iff, Prod.mk.injEq] at h
  obtain ⟨_, _, _, _, rfl, _⟩ := h
  rfl

theorem notifyAll_processor {stages : List Stage}
    (h : stages.foldlM (System.notify hostNetwork md5Hash tagPrefix d) s =
      some s') :
    ∃ calls, s.processor.notifyAll hostNetwork d.orders stages =
      some (s'.processor, calls) := by
  induction stages generalizing s with
  | nil =>
      obtain rfl := Option.some.inj h
      exact ⟨[], rfl⟩
  | cons stage stages ih =>
      rw [List.foldlM_cons, bind_eq_some_iff] at h
      obtain ⟨mid, hmid, hrest⟩ := h
      obtain ⟨processor, first, renders, hnotify, _, rfl⟩ :=
        notify_eq_some hmid
      obtain ⟨rest, hall⟩ := ih hrest
      rw [commit_processor] at hall
      refine ⟨first ++ rest, ?_⟩
      rw [State.notifyAll, hnotify, Option.bind_eq_bind, Option.bind_some, hall]
      rfl

theorem deliver_eq_some
    (h : s.deliver hostNetwork md5Hash tagPrefix d = some s') :
    ∃ stages, d.change.event.stages s.processor.datastore
        s.processor.cache = .ok stages ∧
      stages.foldlM (System.notify hostNetwork md5Hash tagPrefix d)
        { s with
          processor := { s.processor with
            datastore := d.change.event.content s.processor.datastore } } =
        some s' := by
  simp only [System.deliver, bind_eq_some_iff] at h
  obtain ⟨stages, hstages, hall⟩ := h
  cases hresult : d.change.event.stages s.processor.datastore
      s.processor.cache with
  | error e =>
      rw [hresult] at hstages
      cases hstages
  | ok stages' =>
      rw [hresult] at hstages
      cases hstages
      exact ⟨stages, rfl, hall⟩

theorem deliver_processor
    (h : s.deliver hostNetwork md5Hash tagPrefix d = some s') :
    ∃ calls, s.processor.deliver hostNetwork d.toDelivery =
      some (s'.processor, calls) := by
  obtain ⟨stages, hstages, hall⟩ := deliver_eq_some h
  obtain ⟨calls, hcalls⟩ := notifyAll_processor hall
  refine ⟨calls, ?_⟩
  rw [State.deliver, hstages]
  exact hcalls

theorem run_snoc {before : List Delivery}
    (h : System.run hostNetwork md5Hash tagPrefix (before ++ [d]) = some s) :
    ∃ mid, System.run hostNetwork md5Hash tagPrefix before = some mid ∧
      mid.deliver hostNetwork md5Hash tagPrefix d = some s := by
  rw [System.run, List.foldlM_append, bind_eq_some_iff] at h
  obtain ⟨mid, hmid, hlast⟩ := h
  exact ⟨mid, hmid, by simpa using hlast⟩

theorem run_processor {run : List Delivery}
    (h : System.run hostNetwork md5Hash tagPrefix run = some s) :
    State.run hostNetwork (run.map Delivery.toDelivery) = some s.processor := by
  induction run using List.reverseRecOn generalizing s with
  | nil =>
      obtain rfl := Option.some.inj h
      rfl
  | append_singleton before d ih =>
      obtain ⟨mid, hmid, hdeliver⟩ := run_snoc h
      obtain ⟨calls, hcalls⟩ := deliver_processor hdeliver
      rw [List.map_append, List.map_singleton]
      exact run_append.mpr ⟨mid.processor, calls, ih hmid, hcalls⟩

end Processor

/-! ## The networks of rendered rules -/

def ruleBlocks (rule : Rule) : Option (List Configurator.IPBlock) :=
  (rule.peer.filterMap Peer.ipBlock).mapM calculateIPBlock

theorem mapM_calculatePeer {api : PolicyCacheAPI} {ns : String}
    {rulePeers : List Peer}
    {peers : List (List PodID × Option Configurator.IPBlock)}
    (h : rulePeers.mapM (calculatePeer api ns) = some peers) :
    (rulePeers.filterMap Peer.ipBlock).mapM calculateIPBlock =
      some (peers.filterMap Prod.snd) := by
  induction rulePeers generalizing peers with
  | nil =>
      rw [List.mapM_nil] at h
      obtain rfl := Option.some.inj h
      rfl
  | cons rulePeer rulePeers ih =>
      simp only [List.mapM_cons, bind_eq_some_iff, pure_eq_some_iff] at h
      obtain ⟨peer, hpeer, rest, hrest, rfl⟩ := h
      simp only [calculatePeer, bind_eq_some_iff] at hpeer
      obtain ⟨pods, _, hpeer⟩ := hpeer
      cases hblock : rulePeer.ipBlock with
      | none =>
          rw [hblock] at hpeer
          obtain rfl := Option.some.inj hpeer
          rw [List.filterMap_cons_none hblock, ih hrest,
            List.filterMap_cons_none rfl]
      | some block =>
          rw [hblock] at hpeer
          simp only [bind_eq_some_iff, pure_eq_some_iff] at hpeer
          obtain ⟨b, hb, rfl⟩ := hpeer
          rw [List.filterMap_cons_some hblock, List.mapM_cons, hb, ih hrest]
          rfl

theorem calculateMatch_blocks {api : PolicyCacheAPI} {ns : String}
    {type : MatchType} {rule : Rule} {m : Match}
    (h : calculateMatch api ns type rule = some m) :
    ruleBlocks rule = some (m.ipBlocks.getD []) := by
  simp only [calculateMatch, bind_eq_some_iff, pure_eq_some_iff] at h
  obtain ⟨peers, hpeers, _, _, rfl⟩ := h
  rw [ruleBlocks, mapM_calculatePeer hpeers]
  split_ifs with hnil
  · rw [hnil, List.mapM_nil] at hpeers
    obtain rfl := Option.some.inj hpeers
    rfl
  · rfl

theorem ruleBlocks_parsed {rule : Rule}
    {blocks : List Configurator.IPBlock} (h : ruleBlocks rule = some blocks) :
    ∀ n ∈ collectSubnets blocks, n.Block := by
  refine collectSubnets_block fun block hblock => ?_
  obtain ⟨text, _, htext⟩ := (mem_mapM_iff h).mp hblock
  simp only [calculateIPBlock, bind_eq_some_iff, pure_eq_some_iff] at htext
  obtain ⟨except, hexcept, network, hnetwork, rfl⟩ := htext
  refine ⟨parseCIDR_block hnetwork, fun e he => ?_⟩
  obtain ⟨_, _, he⟩ := (mem_mapM_iff hexcept).mp he
  exact parseCIDR_block he

def rulesOf : MatchType → Policy → List Rule
  | .ingress, policy => policy.ingressRule
  | .egress, policy => policy.egressRule

def Restricts (direction : MatchType) (policy : Policy) : Prop :=
  ContivPolicy.applies direction
    ⟨policy.id, processType policy.policyType, []⟩ = true ∧
  ¬ (rulesOf direction policy ≠ [] ∧
    ∀ rule ∈ rulesOf direction policy, rule.peer = [] ∧ rule.port = [])

def RestrictedBy (c : Cache) (id : PodID) (direction : MatchType)
    (policy : Policy) : Prop :=
  c.FindsFor id policy ∧ Restricts direction policy

def FoundAsPeer (c : Cache) (direction : MatchType) (policy : Policy)
    (pod : Pod) : Prop :=
  ∃ rule ∈ rulesOf direction policy, ∃ peer ∈ rule.peer,
    ∃ selector, peer.pods = some selector ∧ c.HasPod policy.ns pod ∧
      CodeSelects c policy.ns selector pod

def BlockNetwork (direction : MatchType) (policy : Policy) (n : IPNet) : Prop :=
  ∃ rule ∈ rulesOf direction policy, ∃ blocks,
    ruleBlocks rule = some blocks ∧ n ∈ collectSubnets blocks

def PolicyNetwork (c : Cache) (direction : MatchType) (policy : Policy)
    (n : IPNet) : Prop :=
  n = .any ∨
  (∃ pod, FoundAsPeer c direction policy pod ∧
    getOneHostSubnet pod.ipAddress = some n) ∨
  BlockNetwork direction policy n

/-- What a namespace is given for a pod with the content of a cache: what its
rules install comes from policies that restrict the pod.  Traffic to the pod
leaves the vswitch, so its rules are egress rules. -/
structure RenderedFrom (c : Cache) (id : PodID) (nsConfig : NamespaceConfig) :
    Prop where
  address : ∃ data, c.configuredPods.lookup id.string = some data ∧
    getOneHostSubnet data.ipAddress = some nsConfig.ipAddr
  ingress : ∀ rule ∈ nsConfig.ingress,
    installs Renderer.ContivRule.destNetwork rule →
    ∃ policy, RestrictedBy c id .egress policy ∧
      PolicyNetwork c .egress policy rule.destNetwork
  egress : ∀ rule ∈ nsConfig.egress,
    installs Renderer.ContivRule.srcNetwork rule →
    ∃ policy, RestrictedBy c id .ingress policy ∧
      PolicyNetwork c .ingress policy rule.srcNetwork

variable {direction : MatchType}

section Translated

variable {api : PolicyCacheAPI} {ns : String} {type : MatchType}
  {rule : Rule} {m : Match} {policy : Policy} {cp : ContivPolicy}

theorem calculateMatch_type (h : calculateMatch api ns type rule = some m) :
    m.type = type := by
  simp only [calculateMatch, bind_eq_some_iff, pure_eq_some_iff] at h
  obtain ⟨_, _, _, _, rfl⟩ := h
  split_ifs <;> rfl

theorem calculateMatch_allowsAll (h : calculateMatch api ns type rule = some m)
    (hrule : rule.peer = [] ∧ rule.port = []) : m.allowsAll = true := by
  simp only [calculateMatch, hrule.1, hrule.2, List.mapM_nil,
    Option.pure_def, Option.bind_eq_bind, Option.bind_some, if_true,
    Option.some.injEq] at h
  rw [← h]
  rfl

theorem mapM_rulesOf (h : processData api policy = some cp)
    (happlies : cp.applies direction = true) :
    (rulesOf direction policy).mapM (calculateMatch api policy.ns direction) =
        some (cp.matchesOf direction) := by
  simp only [processData, calculateMatches, bind_eq_some_iff,
    pure_eq_some_iff] at h
  obtain ⟨_, ⟨ingress, hingress, egress, hegress, rfl⟩, rfl⟩ := h
  have hin : ∀ m ∈ ingress, m.type = .ingress := fun m hm => by
    obtain ⟨_, _, hmatch⟩ := (mem_mapM_iff hingress).mp hm
    exact calculateMatch_type hmatch
  have heg : ∀ m ∈ egress, m.type = .egress := fun m hm => by
    obtain ⟨_, _, hmatch⟩ := (mem_mapM_iff hegress).mp hm
    exact calculateMatch_type hmatch
  rw [ContivPolicy.matchesOf, if_pos happlies, List.filter_append]
  cases direction with
  | ingress =>
      rw [List.filter_eq_self.mpr fun m hm => by simp [hin m hm],
        List.filter_eq_nil_iff.mpr fun m hm => by simp [heg m hm],
        List.append_nil]
      exact hingress
  | egress =>
      rw [List.filter_eq_nil_iff.mpr fun m hm => by simp [hin m hm],
        List.filter_eq_self.mpr fun m hm => by simp [heg m hm],
        List.nil_append]
      exact hegress

theorem restricts_of (h : processData api policy = some cp)
    (happlies : cp.applies direction = true)
    (hnot : ∀ m ∈ cp.matchesOf direction, m.allowsAll = true →
      ∃ m' ∈ cp.matchesOf direction, ¬ m'.allowsAll = true) :
    Restricts direction policy := by
  have hmatches := mapM_rulesOf h happlies
  have htype : ContivPolicy.applies direction
      ⟨policy.id, processType policy.policyType, []⟩ = true := by
    simp only [processData, bind_eq_some_iff, pure_eq_some_iff] at h
    obtain ⟨_, _, rfl⟩ := h
    exact happlies
  refine ⟨htype, fun hall => ?_⟩
  have hallows : ∀ m ∈ cp.matchesOf direction, m.allowsAll = true := by
    intro m hm
    obtain ⟨rule, hrule, hmatch⟩ := (mem_mapM_iff hmatches).mp hm
    exact calculateMatch_allowsAll hmatch (hall.2 rule hrule)
  obtain ⟨rule, hrule⟩ := List.exists_mem_of_ne_nil _ hall.1
  obtain ⟨m, hm, _⟩ := exists_of_mapM hmatches hrule
  obtain ⟨m', hm', hnot⟩ := hnot m hm (hallows m hm)
  exact hnot (hallows m' hm')

end Translated

theorem not_installs_of_allowsAll {lookupPod : LookupPod} {id : PolicyID}
    {m : Match} {rule : Renderer.ContivRule} (h : m.allowsAll = true)
    (hrule : rule ∈ matchRules direction id m (m.peers lookupPod)) :
    ¬ installs Renderer.ContivRule.srcNetwork rule ∧
      ¬ installs Renderer.ContivRule.destNetwork rule := by
  simp only [Match.allowsAll, Match.matchesAnyPeer, Bool.and_eq_true,
    Option.isNone_iff_eq_none, decide_eq_true_eq] at h
  obtain ⟨⟨hpods, hblocks⟩, hports⟩ := h
  simp only [matchRules, Match.matchesAnyPeer, Match.peers, hpods, hblocks,
    hports, Option.isNone_none, Bool.and_self, if_true, Option.getD_none,
    List.filterMap_nil, List.flatMap_nil, List.append_nil, portRules,
    show collectSubnets [] = [] from rfl] at hrule
  unfold installs
  rcases List.mem_pair.mp hrule with rfl | rfl <;>
    cases direction <;> simp [permitRule, IPNet.any]

section Rendered

variable {ds : Datastore} {c : Cache} {names : RangeOrder String}
  {order : RangeOrder (String × Policy)} {id : PodID}

theorem mem_of_mem_rulesOf {policy : Policy} {rule : Rule}
    (h : rule ∈ rulesOf direction policy) :
    rule ∈ policy.ingressRule ++ policy.egressRule := by
  cases direction with
  | ingress => exact List.mem_append_left _ h
  | egress => exact List.mem_append_right _ h

theorem foundAsPeer_of_mem (hc : Mirrored ds c) (hds : ds.Proper)
    {policy : Policy} (hpolicy : ds.Holds (.policy policy)) {rule : Rule}
    (hrule : rule ∈ rulesOf direction policy) {m : Match}
    (hm : calculateMatch (.of names order c) policy.ns direction rule = some m)
    {pod : PodID} (hpod : pod ∈ m.pods.getD []) {peer : PeerPod}
    (hpeer : Configurator.knownPeer (lookupPod c) pod = some peer) :
    ∃ data, FoundAsPeer c direction policy data ∧
      getOneHostSubnet data.ipAddress = some peer.ipNet := by
  have hproper := hds.policies policy hpolicy
  have hns := hproper.valid.ns
  obtain ⟨rulePeer, hrulePeer, ids, hids, hid⟩ :=
    mem_pods_calculateMatch hm hpod
  have hids : lookupPodsByNSLabelSelector names c policy.ns rulePeer.pods =
      some ids := hids
  obtain ⟨data, hlookup, hn⟩ := knownPeer_eq_some hpeer
  have hlookup : c.configuredPods.lookup pod.string = some data :=
    congrArg Prod.snd hlookup
  cases hselector : rulePeer.pods with
  | none =>
      rw [hselector, lookupPodsByNSLabelSelector,
        lookupPodsByNamespace_eq_nil hns] at hids
      cases hids
      cases hid
  | some selector =>
      obtain ⟨ids', hids', _, hmem⟩ := @lookupPodsByNSLabelSelector_spec
        names c policy.ns (hc.podsRegistered hds) hns selector
        (hproper.peers rule (mem_of_mem_rulesOf hrule) rulePeer hrulePeer
          selector hselector)
      rw [hselector, hids', Option.some.injEq] at hids
      obtain ⟨found, hfound, hcode, rfl⟩ := (hmem pod).mp (hids ▸ hid)
      obtain rfl := Option.some.inj (hlookup.symm.trans hfound.1)
      exact ⟨data, ⟨rule, hrule, rulePeer, hrulePeer, selector, hselector,
        hfound, hcode⟩, hn⟩

/-- What the generated rules install comes from the policies of the pod. -/
theorem generated_of_findsFor (hc : Mirrored ds c) (hds : ds.Proper)
    {policies : List ContivPolicy}
    (hpolicies : ∀ cp ∈ policies, ∃ policy, c.FindsFor id policy ∧
      processData (.of names order c) policy = some cp)
    {rules : List Renderer.ContivRule}
    (h : generateRules (lookupPod c) direction policies = some rules)
    {rule : Renderer.ContivRule} (hrule : rule ∈ rules)
    (hinstalls : installs Renderer.ContivRule.srcNetwork rule ∨
      installs Renderer.ContivRule.destNetwork rule) :
    ∃ policy, RestrictedBy c id direction policy ∧
      PolicyNetwork c direction policy rule.srcNetwork ∧
      PolicyNetwork c direction policy rule.destNetwork := by
  rcases mem_generateRules h hrule with ⟨cp, hcp, m, hm, hrule⟩ |
    ⟨hrule, cp, hcp, happlies, hnone⟩
  · obtain ⟨policy, hfound, hdata⟩ := hpolicies cp hcp
    have hmatch := mem_matchesOf.mp hm
    have hall : ¬ m.allowsAll = true := fun hall =>
      hinstalls.elim (not_installs_of_allowsAll hall hrule).1
        (not_installs_of_allowsAll hall hrule).2
    refine ⟨policy, ⟨hfound, restricts_of hdata hmatch.1
      fun _ _ _ => ⟨m, hm, hall⟩⟩, ?_⟩
    obtain ⟨k8sRule, hk8sRule, hcalculate⟩ :=
      (mem_mapM_iff (mapM_rulesOf hdata hmatch.1)).mp hm
    refine matchRules_networks (Or.inl rfl) (fun peer hpeer => ?_)
      (fun n hn => ?_) rule hrule
    · obtain ⟨pod, hpod, hpeer⟩ := List.mem_filterMap.mp hpeer
      exact Or.inr (Or.inl (foundAsPeer_of_mem hc hds
        ((hc.policies _ _).mp hfound.lookup).2 hk8sRule hcalculate hpod
        hpeer))
    · exact Or.inr (Or.inr ⟨k8sRule, hk8sRule, _,
        calculateMatch_blocks hcalculate, hn⟩)
  · obtain ⟨policy, hfound, hdata⟩ := hpolicies cp hcp
    refine ⟨policy, ⟨hfound, restricts_of hdata happlies
      fun m hm hall => absurd hall (hnone m hm)⟩, ?_⟩
    rcases List.mem_pair.mp hrule with rfl | rfl <;>
      exact ⟨Or.inl rfl, Or.inl rfl⟩

variable {hostNetwork : IPNet} {orders : Notification → Orders}
  {p p' : State} {stage : Stage} {calls : Calls}
  {choices : Configurator.CommitChoices} {renders : List (PodID × Rendered)}

theorem findsFor_of_configured (hpods : c.PodsRegistered)
    (hpolicies : c.PoliciesRegistered) {pods : List PodID}
    (h : processCalls (.of names order c) pods = some calls)
    {policies : List ContivPolicy}
    (hid : (configure calls).lookup id = some policies) {cp : ContivPolicy}
    (hcp : cp ∈ policies) :
    ∃ policy, c.FindsFor id policy ∧
      processData (.of names order c) policy = some cp ∧
      cp.id = policy.id := by
  obtain ⟨pod, _, hpod⟩ := (mem_mapM_iff h).mp (lookup_configure.1 _ hid)
  obtain ⟨policies', hprocess, heq⟩ := Option.map_eq_some_iff.mp hpod
  obtain ⟨rfl, rfl⟩ := Prod.mk.inj heq
  exact findsFor_of_mem_processPod hpods hpolicies hprocess hcp

theorem rendered_from (hc : Mirrored ds stage.cache) (hds : ds.Proper)
    (hnotify : p.notify hostNetwork orders stage = some (p', calls))
    (hrenders : renderCalls choices (lookupPod stage.cache)
      (configure calls) = some renders) :
    ∀ r ∈ renders, RenderedFrom stage.cache r.1
      ⟨r.2.podIP, r.2.ingress, r.2.egress⟩ := by
  intro r hr
  have hpods := hc.podsRegistered hds
  have hpolicies := hc.policiesRegistered hds
  simp only [State.notify, bind_eq_some_iff, pure_eq_some_iff,
    Prod.mk.injEq] at hnotify
  obtain ⟨handled, _, calls', hcalls, rfl, rfl⟩ := hnotify
  obtain ⟨s, hs, rfl⟩ := Option.map_eq_some_iff.mp hrenders
  obtain ⟨entry, hentry, hentryPod, peer, hpeer, hip, set, hvalid,
    ⟨entry', hentry', _, hset⟩, hequal, hingress, hegress⟩ :=
    (collected_foldlM hs).rules r hr
  have hfound : ∀ e ∈ range choices.podOrder (configure calls'), ∀ cp ∈ e.2,
      _ := fun e he cp hcp => findsFor_of_configured hpods hpolicies hcalls
        (mem_range.mp he) hcp
  -- A set that was made for another pod has the policies of this one.
  have hown : ∀ cp ∈ set.policies, ∃ policy, stage.cache.FindsFor r.1 policy ∧
        processData (.of (orders stage.notification).names
          (orders stage.notification).policies stage.cache) policy = some cp := by
    intro cp hcp
    have hids : cp.id ∈ (choices.sort.sort entry.2).map ContivPolicy.id := by
      have heq : set.policies.map ContivPolicy.id =
          (choices.sort.sort entry.2).map ContivPolicy.id := by
        simpa [policiesEqual] using hequal
      exact heq ▸ List.mem_map_of_mem hcp
    obtain ⟨own, hown, hid⟩ := List.mem_map.mp hids
    rw [(choices.sort.perm _).mem_iff] at hown
    rw [hset, (choices.sort.perm _).mem_iff] at hcp
    obtain ⟨policy, hpolicy, _, hpolicyID⟩ := hfound entry hentry own hown
    obtain ⟨policy', hpolicy', hdata, hpolicyID'⟩ := hfound entry' hentry' cp hcp
    have hsame : policy = policy' :=
      distinct_installed hpolicies policy policy' ⟨_, hpolicy.lookup⟩
        ⟨_, hpolicy'.lookup⟩ (by rw [← hpolicyID, hid, hpolicyID'])
    exact ⟨policy', hentryPod ▸ hsame ▸ hpolicy, hdata⟩
  simp only [ProcessedPolicySet.Valid, processPolicies, bind_eq_some_iff,
    pure_eq_some_iff] at hvalid
  obtain ⟨egress, hgenEgress, ingress, hgenIngress, heq⟩ := hvalid
  obtain ⟨data, hlookup, hn⟩ := knownPeer_eq_some hpeer
  refine ⟨⟨data, congrArg Prod.snd hlookup, by rw [hip]; exact hn⟩,
    fun rule hrule hinstalls => ?_, fun rule hrule hinstalls => ?_⟩
  · have hrule : rule ∈ ingress := by
      rw [show ingress = set.ingress by rw [← heq], ← hingress]
      exact hrule
    obtain ⟨policy, hpolicy, _, hdest⟩ := generated_of_findsFor hc hds hown
      hgenIngress hrule (Or.inr hinstalls)
    exact ⟨policy, hpolicy, hdest⟩
  · have hrule : rule ∈ egress := by
      rw [show egress = set.egress by rw [← heq], ← hegress]
      exact hrule
    obtain ⟨policy, hpolicy, hsrc, _⟩ := generated_of_findsFor hc hds hown
      hgenEgress hrule (Or.inl hinstalls)
    exact ⟨policy, hpolicy, hsrc⟩

end Rendered

/-! ## The cache of the renderer -/

section Cache

variable {hostNetwork : IPNet} {md5Hash : String → String}
  {tagPrefix : String} {s s' : System} {d : Delivery} {choices : TxnChoices}
  {renders : List (PodID × Rendered)}

theorem mem_updates {getNsIndex : PodID → Option UInt32} {u : Update} :
    u ∈ updates getNsIndex renders ↔
      ∃ r ∈ renders, getNsIndex r.1 = some u.nsIndex ∧ u.pod = r.1 ∧
        u.nsConfig = ⟨r.2.podIP, r.2.ingress, r.2.egress⟩ := by
  simp only [updates, List.mem_filterMap, Option.map_eq_some_iff]
  constructor
  · rintro ⟨r, hr, nsIndex, hns, heq⟩
    subst heq
    exact ⟨r, hr, hns, rfl, rfl⟩
  · rintro ⟨r, hr, hns, hpod, hconfig⟩
    refine ⟨r, hr, u.nsIndex, hns, ?_⟩
    rw [← hpod, ← hconfig]

/-- A namespace has what the last update of the transaction gives it, or what
it had before. -/
theorem lookup_foldl_update {α : Type} {calls : List Update} {txn : Txn}
    (record : Update → α) (records : UInt32 → α) (ns : UInt32) :
    (∃ u ∈ calls, u.nsIndex = ns ∧
      ((calls.map fun u => TxnCall.update u.nsIndex u.nsConfig).foldl
        (TxnCall.apply md5Hash tagPrefix) txn).config.lookup ns =
          some u.nsConfig ∧
      assignAll (calls.map fun u => (u.nsIndex, record u)) records ns =
        record u) ∨
    ((∀ u ∈ calls, u.nsIndex ≠ ns) ∧
      ((calls.map fun u => TxnCall.update u.nsIndex u.nsConfig).foldl
        (TxnCall.apply md5Hash tagPrefix) txn).config.lookup ns =
          txn.config.lookup ns ∧
      assignAll (calls.map fun u => (u.nsIndex, record u)) records ns =
        records ns) := by
  induction calls using List.reverseRecOn with
  | nil => exact Or.inr ⟨by simp, rfl, rfl⟩
  | append_singleton calls last ih =>
      have hrecords : assignAll ((calls ++ [last]).map fun u =>
          (u.nsIndex, record u)) records = Function.update (assignAll
            (calls.map fun u => (u.nsIndex, record u)) records)
            last.nsIndex (record last) := by
        simp [assignAll]
      rw [List.map_append, List.foldl_append, List.map_singleton,
        List.foldl_cons, List.foldl_nil, TxnCall.apply_config, hrecords]
      by_cases hns : ns = last.nsIndex
      · left
        refine ⟨last, by simp, hns.symm, by simp [hns], by simp [hns]⟩
      · simp only [if_neg hns, Function.update_of_ne hns]
        refine ih.imp ?_ ?_
        · rintro ⟨u, hu, hrest⟩
          exact ⟨u, List.mem_append_left _ hu, hrest⟩
        · rintro ⟨hnone, hrest⟩
          refine ⟨fun u hu => ?_, hrest⟩
          rcases List.mem_append.mp hu with hu | hu
          · exact hnone u hu
          · rw [List.mem_singleton.mp hu]
            exact Ne.symm hns

theorem commit_lookup (ns : UInt32) :
    (∃ u ∈ updates choices.getNsIndex renders, u.nsIndex = ns ∧
      (s.commit md5Hash tagPrefix choices renders).cache.config.lookup ns =
        some u.nsConfig ∧
      (s.commit md5Hash tagPrefix choices renders).rendered ns =
        some (u.pod, s.processor.cache)) ∨
    ((∀ u ∈ updates choices.getNsIndex renders, u.nsIndex ≠ ns) ∧
      (s.commit md5Hash tagPrefix choices renders).cache.config.lookup ns =
        s.cache.config.lookup ns ∧
      (s.commit md5Hash tagPrefix choices renders).rendered ns =
        s.rendered ns) := by
  unfold System.commit
  split_ifs with hnil
  · subst hnil
    exact Or.inr ⟨by simp [updates], rfl, rfl⟩
  · have hlookup := @lookup_foldl_update md5Hash tagPrefix _
      (updates choices.getNsIndex renders) (s.cache.newTxn false)
      (fun u => some (u.pod, s.processor.cache)) s.rendered ns
    have hstart : (s.cache.newTxn false).config = s.cache.config := rfl
    rw [hstart] at hlookup
    simpa [CommittedTxn.apply, Txn.commit, SessionRuleCache.txnAfter,
      rendererTxn, TxnCall.apply, Txn.refresh_config] using hlookup

/-- The cache has been filled by transactions, what a namespace has was
rendered for the recorded pod, and no other namespace has a record. -/
structure System.WellFormed (md5Hash : String → String) (tagPrefix : String)
    (s : System) : Prop where
  committed : ∃ history, s.cache = cacheAfter md5Hash tagPrefix history
  rendered : ∀ ns nsConfig, s.cache.config.lookup ns = some nsConfig →
    ∃ id c, s.rendered ns = some (id, c) ∧ RenderedFrom c id nsConfig
  recorded : ∀ ns, s.cache.config.lookup ns = none → s.rendered ns = none

theorem notify_wellFormed {ds : Datastore} {stage : Stage}
    (hc : Mirrored ds stage.cache) (hds : ds.Proper)
    (h : s.notify hostNetwork md5Hash tagPrefix d stage = some s')
    (hs : s.WellFormed md5Hash tagPrefix) :
    s'.WellFormed md5Hash tagPrefix := by
  obtain ⟨processor, calls, renders, hnotify, hrenders, rfl⟩ :=
    notify_eq_some h
  have hrendered := rendered_from hc hds hnotify hrenders
  have hcache := notify_cache hnotify
  refine ⟨?_, fun ns nsConfig hns => ?_, fun ns hns => ?_⟩
  · obtain ⟨history, hhistory⟩ := hs.committed
    unfold System.commit
    split_ifs
    · exact ⟨history, hhistory⟩
    · refine ⟨history ++ [rendererTxn (d.choices stage.notification)
        (updates (d.choices stage.notification).getNsIndex renders)], ?_⟩
      rw [cacheAfter, List.foldl_append, ← cacheAfter, ← hhistory]
      rfl
  · rcases commit_lookup ns with ⟨u, hu, _, hconfig, hrecord⟩ |
      ⟨_, hconfig, hrecord⟩
    · rw [hconfig, Option.some.injEq] at hns
      obtain ⟨r, hr, _, hpod, hnsConfig⟩ := mem_updates.mp hu
      refine ⟨u.pod, processor.cache, hrecord, ?_⟩
      rw [← hns, hnsConfig, hpod, hcache]
      exact hrendered r hr
    · rw [hrecord]
      exact hs.rendered ns nsConfig (hconfig ▸ hns)
  · rcases commit_lookup ns with ⟨u, _, _, hconfig, _⟩ | ⟨_, hconfig, hrecord⟩
    · rw [hconfig] at hns
      cases hns
    · rw [hrecord]
      exact hs.recorded ns (hconfig ▸ hns)

theorem deliver_wellFormed
    (h : s.deliver hostNetwork md5Hash tagPrefix d = some s')
    (hmirrors : s.processor.Mirrors) (hs : s.WellFormed md5Hash tagPrefix) :
    s'.WellFormed md5Hash tagPrefix := by
  obtain ⟨stages, hstages, hall⟩ := deliver_eq_some h
  have hmirror := d.change.stagesMirror hmirrors.cache hstages
  refine foldlM_invariant (fun stage hstage t t' ht hstep =>
    notify_wellFormed (hmirror.1 stage hstage)
      (d.change.proper hmirrors.proper) hstep ht) ?_ hall
  exact ⟨hs.committed, hs.rendered, hs.recorded⟩

theorem run_wellFormed {run : List Delivery}
    (h : System.run hostNetwork md5Hash tagPrefix run = some s) :
    s.WellFormed md5Hash tagPrefix := by
  induction run using List.reverseRecOn generalizing s with
  | nil =>
      obtain rfl := Option.some.inj h
      refine ⟨⟨[], rfl⟩, fun ns nsConfig hns => ?_, fun _ _ => rfl⟩
      rw [show System.init.cache.config.lookup ns = none from
        AList.lookup_empty ns] at hns
      cases hns
  | append_singleton before d ih =>
      obtain ⟨mid, hmid, hdeliver⟩ := run_snoc h
      exact deliver_wellFormed hdeliver (run_mirrors (run_processor hmid))
        (ih hmid)

end Cache

end ContivVPP.SessionPipeline
