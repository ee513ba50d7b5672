import ContivVPP.ProcessorCurrent
import ContivVPP.SessionPipeline

/-!
# What a deleted pod leaves in the session tables

When a pod is deleted, the processor configures other pods again, those with a
policy that has a peer which matches the pod.  The deleted pod itself is not
rendered any more, and the renderer is not told to remove anything.  So its
namespace keeps its rules, unless it goes to a pod that is rendered again, and
the rules of the other pods keep its address, unless they are rendered again.
-/

namespace ContivVPP.SessionPipeline

open GoMap K8s Net Configurator PolicyCache Processor SessionCache

/-! ## Traces of a pod -/

def SameAddress (pod pod' : Pod) : Prop :=
  ∃ x x', parseIP pod.ipAddress = some x ∧
    parseIP pod'.ipAddress = some x' ∧ Net.norm x = Net.norm x'

def DistinctAddresses (ds : Datastore) : Prop :=
  ∀ pod pod', ds.Holds (.pod pod) → ds.Holds (.pod pod') →
    SameAddress pod pod' → pod = pod'

def System.Reused (hostNetwork : IPNet) (s : System) (pod : Pod) : Prop :=
  ∃ other x x', s.processor.datastore.Holds (.pod other) ∧
    parseIP other.ipAddress = some x' ∧ hostNetwork.contains x' = true ∧
    parseIP pod.ipAddress = some x ∧ Net.norm x = Net.norm x'

structure System.Forgets (md5Hash : String → String) (tagPrefix : String)
    (s : System) (pod : Pod) : Prop where
  rules : ∀ ns nsConfig c, s.rendered ns = some (pod.id, c) →
    s.cache.config.lookup ns = some nsConfig →
    ∀ table, ∀ r ∈ s.cache.tables.rules table,
      ¬ DerivedFrom md5Hash tagPrefix s.cache.config ns nsConfig table r
  address : ∀ x, parseIP pod.ipAddress = some x →
    ∀ table, ∀ r ∈ s.cache.tables.rules table, ¬ r.Carries x

def System.Cleared (hostNetwork : IPNet) (md5Hash : String → String)
    (tagPrefix : String) (s : System) (pod : Pod) : Prop :=
  s.Reused hostNetwork pod ∨ s.Forgets md5Hash tagPrefix pod

def AvoidsBlocks (direction : MatchType) (policy : Policy) (pod : Pod) : Prop :=
  ∀ n, BlockNetwork direction policy n →
    ∀ x, parseIP pod.ipAddress = some x → ¬ IsHost n x

structure Spares (c : Cache) (id : PodID) (direction : MatchType)
    (policy : Policy) (pod : Pod) : Prop where
  other : id ≠ pod.id
  address : direction = .ingress → ∀ data,
    c.configuredPods.lookup id.string = some data → ¬ SameAddress data pod
  peers : ∀ peer, FoundAsPeer c direction policy peer → ¬ SameAddress peer pod
  blocks : AvoidsBlocks direction policy pod

def RenderedAgain (hostNetwork : IPNet) (s : System) (d : Delivery)
    (pod : Pod) (c : Cache) (id : PodID) (ns : UInt32) : Prop :=
  Affects hostNetwork s.processor.podIPAddressMap c id (.delPod pod) ∧
    InCache c id ∧ (d.choices (.delPod pod)).getNsIndex id = some ns

/-- The policies that leave no trace of a deleted pod.  For a namespace that is
not updated they are those of its last update, otherwise those after the
deletion. -/
structure Clearable (hostNetwork : IPNet) (s : System) (d : Delivery)
    (pod : Pod) (c : Cache) : Prop where
  kept : ∀ ns, (¬ ∃ id, RenderedAgain hostNetwork s d pod c id ns) →
    ∀ id old, s.rendered ns = some (id, old) →
    ∀ direction policy, RestrictedBy old id direction policy →
      Spares old id direction policy pod
  updated : ∀ id ns, RenderedAgain hostNetwork s d pod c id ns →
    ∀ direction policy, RestrictedBy c id direction policy →
      AvoidsBlocks direction policy pod

theorem validIP_of_parseIP {text : String} {x : IP}
    (h : parseIP text = some x) : ValidIP x :=
  Or.inr (parseIP_length h)

section Networks

variable {c : Cache} {id : PodID} {direction : MatchType} {policy : Policy}
  {pod : Pod} {n : IPNet} {x : IP} {nsConfig : NamespaceConfig}

theorem ip_eq_nil {network : Renderer.ContivRule → IPNet}
    {rule : Renderer.ContivRule} (h : ¬ installs network rule) :
    (network rule).ip = [] := by
  rw [installs, not_not] at h
  exact List.length_eq_zero_iff.mp h.1

theorem PolicyNetwork.valid (h : PolicyNetwork c direction policy n) :
    ValidNetwork n := by
  rcases h with rfl | ⟨peer, _, hn⟩ | ⟨rule, _, blocks, hblocks, hn⟩
  · exact Or.inl rfl
  · exact Or.inr (Or.inr (getOneHostSubnet_oneHost hn).length)
  · exact Or.inr (ruleBlocks_parsed hblocks n hn).length

theorem RenderedFrom.valid (h : RenderedFrom c id nsConfig) :
    nsConfig.ipAddr.OneHost ∧
      (∀ rule ∈ nsConfig.ingress, ValidNetwork rule.destNetwork) ∧
      ∀ rule ∈ nsConfig.egress, ValidNetwork rule.srcNetwork := by
  obtain ⟨_, _, hn⟩ := h.address
  refine ⟨getOneHostSubnet_oneHost hn, fun rule hrule => ?_, fun rule hrule => ?_⟩
  · by_cases hinstalls : installs Renderer.ContivRule.destNetwork rule
    · obtain ⟨_, _, hnetwork⟩ := h.ingress rule hrule hinstalls
      exact hnetwork.valid
    · exact Or.inl (ip_eq_nil hinstalls)
  · by_cases hinstalls : installs Renderer.ContivRule.srcNetwork rule
    · obtain ⟨_, _, hnetwork⟩ := h.egress rule hrule hinstalls
      exact hnetwork.valid
    · exact Or.inl (ip_eq_nil hinstalls)

theorem Spares.not_isHost (h : Spares c id direction policy pod)
    (hx : parseIP pod.ipAddress = some x)
    (hn : PolicyNetwork c direction policy n) : ¬ IsHost n x := by
  rcases hn with rfl | ⟨peer, hpeer, hn⟩ | hn
  · exact not_isHost_of_empty (validIP_of_parseIP hx) rfl
  · exact fun hhost => h.peers peer hpeer ⟨n.ip, x,
      (getOneHostSubnet_eq_some_iff.mp hn).1, hx, hhost.address⟩
  · exact h.blocks n hn x hx

theorem RenderedFrom.unmarked (h : RenderedFrom c id nsConfig)
    (hspares : ∀ direction policy, RestrictedBy c id direction policy →
      Spares c id direction policy pod) :
    (id = pod.id → Silent nsConfig) ∧
      ∀ x, parseIP pod.ipAddress = some x → Avoids x nsConfig := by
  constructor
  · intro hid
    refine ⟨fun rule hrule hinstalls => ?_, fun rule hrule hinstalls => ?_⟩
    · obtain ⟨policy, hpolicy, _⟩ := h.ingress rule hrule hinstalls
      exact (hspares _ policy hpolicy).other hid
    · obtain ⟨policy, hpolicy, _⟩ := h.egress rule hrule hinstalls
      exact (hspares _ policy hpolicy).other hid
  · intro x hx
    have hvalid := validIP_of_parseIP hx
    refine ⟨fun hhost rule hrule hinstalls => ?_, fun rule hrule => ?_,
      fun rule hrule => ?_⟩
    · obtain ⟨policy, hpolicy, _⟩ := h.egress rule hrule hinstalls
      obtain ⟨data, hdata, hn⟩ := h.address
      exact (hspares _ policy hpolicy).address rfl data hdata
        ⟨_, x, (getOneHostSubnet_eq_some_iff.mp hn).1, hx, hhost.address⟩
    · by_cases hinstalls : installs Renderer.ContivRule.destNetwork rule
      · obtain ⟨policy, hpolicy, hn⟩ := h.ingress rule hrule hinstalls
        exact (hspares _ policy hpolicy).not_isHost hx hn
      · exact not_isHost_of_empty hvalid (ip_eq_nil hinstalls)
    · by_cases hinstalls : installs Renderer.ContivRule.srcNetwork rule
      · obtain ⟨policy, hpolicy, hn⟩ := h.egress rule hrule hinstalls
        exact (hspares _ policy hpolicy).not_isHost hx hn
      · exact not_isHost_of_empty hvalid (ip_eq_nil hinstalls)

end Networks

section Forgets

variable {md5Hash : String → String} {tagPrefix : String} {s : System} {pod : Pod}

theorem System.WellFormed.validConfig
    (hs : s.WellFormed md5Hash tagPrefix) : ValidConfig s.cache.config := by
  have hvalid : ∀ ns nsConfig, s.cache.config.lookup ns = some nsConfig →
      nsConfig.ipAddr.OneHost ∧
        (∀ rule ∈ nsConfig.ingress, ValidNetwork rule.destNetwork) ∧
        ∀ rule ∈ nsConfig.egress, ValidNetwork rule.srcNetwork := by
    intro ns nsConfig hns
    obtain ⟨_, _, _, hrendered⟩ := hs.rendered ns nsConfig hns
    exact hrendered.valid
  exact ⟨fun ns nsConfig hns => (hvalid ns nsConfig hns).1,
    fun ns nsConfig hns => (hvalid ns nsConfig hns).2.1,
    fun ns nsConfig hns => (hvalid ns nsConfig hns).2.2⟩

theorem System.WellFormed.forgets (hs : s.WellFormed md5Hash tagPrefix)
    (hspares : ∀ ns id c, s.rendered ns = some (id, c) →
      ∀ direction policy, RestrictedBy c id direction policy →
        Spares c id direction policy pod) :
    s.Forgets md5Hash tagPrefix pod := by
  obtain ⟨history, hhistory⟩ := hs.committed
  obtain ⟨orders, hbuilt⟩ := @cacheAfter_built md5Hash tagPrefix history
  rw [← hhistory] at hbuilt
  have htab : Tabulates md5Hash tagPrefix orders s.cache := hbuilt
  refine ⟨fun ns nsConfig c hns hconfig table r _ => ?_,
    fun x hx table r hr => ?_⟩
  · obtain ⟨id, c', hrecord, hrendered⟩ := hs.rendered ns nsConfig hconfig
    obtain ⟨rfl, rfl⟩ := Prod.mk.inj (Option.some.inj (hns.symm.trans hrecord))
    exact ((hrendered.unmarked (hspares ns _ _ hns)).1 rfl).not_derivedFrom
  · refine htab.not_carries hs.validConfig (validIP_of_parseIP hx)
      (fun ns nsConfig hconfig => ?_) hr
    obtain ⟨id, c, hrecord, hrendered⟩ := hs.rendered ns nsConfig hconfig
    exact (hrendered.unmarked (hspares ns id c hrecord)).2 x hx

end Forgets

/-! ## The deletion -/

section Deletion

variable {hostNetwork : IPNet} {md5Hash : String → String}
  {tagPrefix : String} {s s' : System} {d : Delivery} {pod : Pod}

theorem exists_update_iff {choices : TxnChoices} {c : Cache} {calls : Calls}
    {renders : List (PodID × Rendered)}
    (h : renderCalls choices.configurator (lookupPod c) (configure calls) =
      some renders) (id : PodID) (ns : UInt32) :
    (∃ u ∈ updates choices.getNsIndex renders, u.pod = id ∧ u.nsIndex = ns) ↔
      (∃ policies, (id, policies) ∈ calls) ∧ InCache c id ∧
        choices.getNsIndex id = some ns := by
  obtain ⟨t, ht, rfl⟩ := Option.map_eq_some_iff.mp h
  have hkeys : id ∈ (range choices.configurator.podOrder
      (configure calls)).map Prod.fst ↔ ∃ policies, (id, policies) ∈ calls := by
    rw [← lookup_configure.2, List.mem_map, ← AList.lookup_isSome,
      Option.isSome_iff_exists]
    constructor
    · rintro ⟨entry, hentry, heq⟩
      exact ⟨entry.2, heq ▸ mem_range.mp hentry⟩
    · rintro ⟨policies, hlookup⟩
      exact ⟨(id, policies), mem_range.mpr hlookup, rfl⟩
  have hpods : (∃ r ∈ t.renders, r.1 = id) ↔
      (∃ policies, (id, policies) ∈ calls) ∧ InCache c id := by
    rw [← List.mem_map, (collected_foldlM ht).pods, List.mem_filter, hkeys]
    exact and_congr_right fun _ => renderable_iff
  rw [← and_assoc, ← hpods]
  constructor
  · rintro ⟨u, hu, hid, hns⟩
    obtain ⟨r, hr, hindex, hpod, _⟩ := mem_updates.mp hu
    exact ⟨⟨r, hr, hpod.symm.trans hid⟩, by rw [← hid, ← hns, hpod, hindex]⟩
  · rintro ⟨⟨r, hr, rfl⟩, hindex⟩
    exact ⟨⟨ns, r.1, _⟩, mem_updates.mpr ⟨r, hr, hindex, rfl, rfl⟩, rfl, rfl⟩

/-- What the deletion of a pod leads to: one notification, the policies
configured for it, and the pods that are rendered. -/
structure Deletes (hostNetwork : IPNet) (s : System) (d : Delivery)
    (pod : Pod) (stage : Stage) (processor : State) (calls : Calls)
    (renders : List (PodID × Rendered)) : Prop where
  holds : s.processor.datastore.Holds (.pod pod)
  proper : s.processor.datastore.Proper
  notification : stage.notification = .delPod pod
  mirrored : Mirrored
    (s.processor.datastore.delete (podKey pod.name pod.ns)) stage.cache
  notify : State.notify hostNetwork d.orders
    { s.processor with
      datastore := s.processor.datastore.delete (podKey pod.name pod.ns) }
    stage = some (processor, calls)
  rendered : renderCalls (d.choices (.delPod pod)).configurator
    (lookupPod stage.cache) (configure calls) = some renders

theorem exists_deletes {hvalid : ValidName pod.id.ns ∧ ValidName pod.id.name}
    (hpod : s.processor.datastore.Holds (.pod pod))
    (hs : s.processor.Mirrors) (hchange : d.change = .deletePod pod.id hvalid)
    (hdeliver : s.deliver hostNetwork md5Hash tagPrefix d = some s') :
    ∃ stage processor calls renders,
      Deletes hostNetwork s d pod stage processor calls renders ∧
      s' = System.commit md5Hash tagPrefix (d.choices (.delPod pod)) renders
        { s with processor := processor } := by
  obtain ⟨stages, hstages, hall⟩ := deliver_eq_some hdeliver
  have hnotifications := d.change.notifications_eq hstages
  rw [hchange] at hstages hall hnotifications
  obtain ⟨stage, hstage, hmirrored⟩ := hs.cache.delete_object hpod
  obtain rfl : stages = [stage] := Except.ok.inj (hstages.symm.trans hstage)
  have hnotification : stage.notification = .delPod pod := by
    have hlookup : s.processor.datastore.values.lookup
        (podKey pod.id.name pod.id.ns) = some (.pod pod) := hpod
    rw [Change.notifications, hlookup] at hnotifications
    exact List.singleton_inj.mp hnotifications
  rw [List.foldlM_cons, Option.bind_eq_bind, Option.bind_eq_some_iff] at hall
  obtain ⟨t, hnotify, hlast⟩ := hall
  obtain rfl := Option.some.inj hlast
  obtain ⟨processor, calls, renders, hprocessor, hrenders, hcommit⟩ :=
    notify_eq_some hnotify
  rw [hnotification] at hrenders hcommit
  exact ⟨stage, processor, calls, renders,
    ⟨hpod, hs.proper, hnotification, hmirrored, hprocessor, hrenders⟩,
    hcommit⟩

namespace Deletes

variable {stage : Stage} {processor : State} {calls : Calls}
  {renders : List (PodID × Rendered)}

section

variable (h : Deletes hostNetwork s d pod stage processor calls renders)
include h

theorem update_iff {c : Cache}
    (hc : Mirrored (s.processor.datastore.delete (podKey pod.name pod.ns)) c)
    (id : PodID) (ns : UInt32) :
    (∃ u ∈ updates (d.choices (.delPod pod)).getNsIndex renders,
      u.pod = id ∧ u.nsIndex = ns) ↔
        RenderedAgain hostNetwork s d pod c id ns := by
  have hproper : NotificationProper stage.notification := by
    rw [h.notification]
    trivial
  rw [exists_update_iff h.rendered, RenderedAgain,
    notify_calls (proper_delete h.proper _) h.mirrored hproper h.notify,
    h.notification, affects_congr h.mirrored hc]
  simp only [InCache, h.mirrored.lookup_pods hc]

theorem ne_of_lookup {id : String} {data : Pod}
    (hlookup : stage.cache.configuredPods.lookup id = some data) :
    s.processor.datastore.Holds (.pod data) ∧ data ≠ pod ∧
      id ≠ pod.id.string := by
  obtain ⟨hid, hdata⟩ := (h.mirrored.pods id data).mp hlookup
  obtain ⟨hkey, hholds⟩ := Datastore.holds_delete.mp hdata
  refine ⟨hholds, fun heq => hkey (heq ▸ rfl), fun heq => hkey ?_⟩
  exact (podKind_named.key_inj data pod hholds.valid h.holds.valid).mpr
    (hid.symm.trans heq)

theorem not_sameAddress (hdistinct : DistinctAddresses s.processor.datastore)
    {id : String} {data : Pod}
    (hlookup : stage.cache.configuredPods.lookup id = some data) :
    ¬ SameAddress data pod := by
  obtain ⟨hholds, hne, _⟩ := h.ne_of_lookup hlookup
  exact fun hsame => hne (hdistinct data pod hholds h.holds hsame)

theorem spares (hdistinct : DistinctAddresses s.processor.datastore)
    {id : PodID} {direction : MatchType} {policy : Policy}
    (hfound : RestrictedBy stage.cache id direction policy)
    (hblocks : AvoidsBlocks direction policy pod) :
    Spares stage.cache id direction policy pod where
  other := by
    obtain ⟨⟨data, _, hdata, rfl, _⟩, _⟩ := hfound
    exact fun heq => (h.ne_of_lookup hdata.1).2.2 (by rw [heq])
  address _ data hdata := h.not_sameAddress hdistinct hdata
  peers peer hpeer := by
    obtain ⟨_, _, _, _, _, _, hpod, _⟩ := hpeer
    exact h.not_sameAddress hdistinct hpod.1
  blocks := hblocks

end

end Deletes

end Deletion

/-! ## Deletions of peers and of pods with policies -/

def shopChoices : TxnChoices where
  configurator := ⟨.insertion, .merge, fun _ => none, .insertion⟩
  getNsIndex id := if id = shopPod.id then some 1 else none
  changes := ⟨insertionOrders, .insertion, .insertion⟩
  commit := insertionOrders

def shopDelivery (change : Change) : Delivery :=
  ⟨insertionDelivery change, fun _ => shopChoices⟩

def shopIP : IP := [0, 0, 0, 0, 0, 0, 0, 0, 0, 0, 255, 255, 10, 1, 1, 2]

theorem parseIP_shopPod : parseIP shopPod.ipAddress = some shopIP := by
  decide +kernel

def blogIP : IP := [0, 0, 0, 0, 0, 0, 0, 0, 0, 0, 255, 255, 10, 1, 1, 3]

theorem parseIP_blogPod : parseIP blogPod.ipAddress = some blogIP := by
  decide +kernel

theorem carries_of_mem {rules : List SessionRule} {x : IP}
    (hx : (to4 x).isSome = true)
    (h : (1, (addressBytes true x).toList, 32) ∈ rules.flatMap fun r =>
      [(r.isIP4, r.lclIP.toList, r.lclPlen),
        (r.isIP4, r.rmtIP.toList, r.rmtPlen)]) :
    ∃ r ∈ rules, r.Carries x := by
  have hplen : hostPlen x ≤ (32 : UInt8).toNat := by
    obtain ⟨y, hy⟩ := Option.isSome_iff_exists.mp hx
    rw [hostPlen, Net.norm, hy, Option.getD_some, to4_length hy]
    decide
  obtain ⟨r, hr, hmem⟩ := List.mem_flatMap.mp h
  refine ⟨r, hr, ?_⟩
  rcases List.mem_pair.mp hmem with heq | heq
  · obtain ⟨hflag, hrest⟩ := Prod.mk.inj heq
    obtain ⟨hip, hlen⟩ := Prod.mk.inj hrest
    exact ⟨true, hflag.symm, fun _ => hx,
      Or.inl ⟨Subtype.ext hip.symm, hlen ▸ hplen⟩⟩
  · obtain ⟨hflag, hrest⟩ := Prod.mk.inj heq
    obtain ⟨hip, hlen⟩ := Prod.mk.inj hrest
    exact ⟨true, hflag.symm, fun _ => hx,
      Or.inr ⟨Subtype.ext hip.symm, hlen ▸ hplen⟩⟩

def blogAndShop : List Delivery :=
  [shopDelivery (.putPod shopPod shopPod_valid),
    shopDelivery (.putPod shopPod shopPod_valid),
    shopDelivery (.putPod blogPod blogPod_valid),
    shopDelivery (.putPolicy fromBlog fromBlog_proper)]

def blogDeletion : Delivery :=
  shopDelivery (.deletePod blogPod.id blogPod_named)

theorem blogAndShop_state :
    ((System.run podNetwork id "contiv/vpp-policy-" blogAndShop).bind
      fun s => (s.deliver podNetwork id "contiv/vpp-policy-"
        blogDeletion).map fun _ =>
          (s.processor.datastore.values.entries.map Sigma.snd,
            s.processor.podIPAddressMap.lookup shopPod.id.string,
            s.cache.config.keys)) =
      some ([.policy fromBlog, .pod blogPod, .pod shopPod],
        some "10.1.1.2", [1]) := by
  decide +kernel

theorem blogAndShop_rules :
    ((System.run podNetwork id "contiv/vpp-policy-" blogAndShop).map
      fun s => decide ((1, (addressBytes true blogIP).toList, 32) ∈
        (s.cache.tables.rules .global).flatMap fun r =>
          [(r.isIP4, r.lclIP.toList, r.lclPlen),
            (r.isIP4, r.rmtIP.toList, r.rmtPlen)])) = some true := by
  decide +kernel

section BlogAndShop

variable {s : System}
  (hobjects : s.processor.datastore.values.entries.map Sigma.snd =
    [.policy fromBlog, .pod blogPod, .pod shopPod])
include hobjects

theorem blogAndShop_distinct :
    DistinctAddresses s.processor.datastore := by
  rintro pod pod' hpod hpod' ⟨x, x', hx, hx', hnorm⟩
  rw [holds_fromBlog_iff hobjects] at hpod hpod'
  have hne : Net.norm blogIP ≠ Net.norm shopIP := by decide
  rcases hpod with hpod | hpod | hpod <;> cases hpod <;>
    rcases hpod' with hpod' | hpod' | hpod' <;> cases hpod'
  · rfl
  · rw [parseIP_blogPod] at hx
    rw [parseIP_shopPod] at hx'
    cases hx
    cases hx'
    exact absurd hnorm hne
  · rw [parseIP_shopPod] at hx
    rw [parseIP_blogPod] at hx'
    cases hx
    cases hx'
    exact absurd hnorm.symm hne
  · rfl

variable {c : Cache} (hc : Mirrored (s.processor.datastore.delete
  (podKey blogPod.name blogPod.ns)) c)
include hc

theorem shopPod_renderedAgain
    (haddress : s.processor.podIPAddressMap.lookup shopPod.id.string =
      some "10.1.1.2") :
    RenderedAgain podNetwork s blogDeletion blogPod c shopPod.id 1 := by
  have hholds := holds_fromBlog_iff hobjects
  obtain ⟨hlookup, haffects⟩ := affects_shopPod hc
    ((hholds _).mpr (Or.inr (Or.inr rfl))) ((hholds _).mpr (Or.inl rfl))
    haddress
  refine ⟨haffects, ⟨shopPod, hlookup, ?_⟩, rfl⟩
  rw [parseIP_shopPod]
  rfl

theorem avoidsBlocks_blogPod {id : PodID} {direction : MatchType}
    {policy : Policy} (h : RestrictedBy c id direction policy) :
    AvoidsBlocks direction policy blogPod := by
  obtain ⟨_, hholds⟩ := (hc.policies _ _).mp h.1.lookup
  have hfrom := (holds_fromBlog_iff hobjects (.policy policy)).mp
    (Datastore.holds_delete.mp hholds).2
  obtain rfl : policy = fromBlog := by simpa using hfrom
  rintro n ⟨rule, hrule, blocks, hblocks, hn⟩
  cases direction with
  | ingress =>
      obtain rfl := List.mem_singleton.mp hrule
      obtain rfl := Option.some.inj hblocks
      cases hn
  | egress => cases hrule

end BlogAndShop

def isolatedShop : List Delivery :=
  [shopDelivery (.putPod shopPod shopPod_valid),
    shopDelivery (.putPolicy isolateShop isolateShop_proper)]

def shopDeletion : Delivery :=
  shopDelivery (.deletePod shopPod.id ⟨shopPod_valid.ns, shopPod_valid.name⟩)

theorem isolatedShop_objects :
    ((System.run podNetwork id "contiv/vpp-policy-" isolatedShop).bind
      fun s => (s.deliver podNetwork id "contiv/vpp-policy-"
        shopDeletion).map fun s' =>
          (s.processor.datastore.values.entries.map Sigma.snd,
            s'.processor.datastore.values.entries.map Sigma.snd)) =
      some ([.policy isolateShop, .pod shopPod], [.policy isolateShop]) := by
  decide +kernel

theorem isolatedShop_rules :
    ((System.run podNetwork id "contiv/vpp-policy-" isolatedShop).bind
      fun s => (s.deliver podNetwork id "contiv/vpp-policy-"
        shopDeletion).map fun s' =>
          decide ((1, (addressBytes true shopIP).toList, 32) ∈
            (s'.cache.tables.rules .global).flatMap fun r =>
              [(r.isIP4, r.lclIP.toList, r.lclPlen),
                (r.isIP4, r.rmtIP.toList, r.rmtPlen)])) = some true := by
  decide +kernel

end ContivVPP.SessionPipeline
