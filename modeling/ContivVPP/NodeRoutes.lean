import ContivVPP.IPAMNetworks
import ContivVPP.NodeIDAllocator
import ContivVPP.RunCondition

/-!
# Routes to the other nodes

A node installs two routes for each other node with an allocated ID, one to
its pods and one to its host.  The CNI server learns of the IDs by events of
the datastore: a resync with all entries, and changes of single entries.

A resync adds the routes of all other nodes and removes none.  A put adds the
routes of the node of its entry, also if this is the own node.  A delete event
comes without the value of the entry, so the routes it removes are those of
host zero.
-/

namespace ContivVPP.NodeRoutes

open GoMap Ipam Net NodeID

/-! ## Routes -/

structure Route where
  vrfId : ℕ
  dstIpAddr : String
  nextHopAddr : String
  deriving DecidableEq, Repr

def routeToOtherHostNetworks (i : IPAM) (hostID : UInt8)
    (destNetwork : IPNet) : Except String Route :=
  match i.hostIPAddress hostID with
  | .error err =>
      .error ("Can't get Host IP address for host ID " ++
        toString hostID.toNat ++ ", error: " ++ err ++ " ")
  | .ok hostIP => .ok ⟨0, destNetwork.string, ipString hostIP⟩

def routeToOtherHostPods (i : IPAM) (hostID : UInt8) : Except String Route :=
  match i.otherHostPodNetwork hostID with
  | .error err =>
      .error ("Can't compute pod network for host ID " ++
        toString hostID.toNat ++ ", error: " ++ err ++ " ")
  | .ok podNetwork => routeToOtherHostNetworks i hostID podNetwork

def routeToOtherHostStack (i : IPAM) (hostID : UInt8) : Except String Route :=
  match i.otherHostVSwitchNetwork hostID with
  | .error err =>
      .error ("Can't compute vswitch network for host ID " ++
        toString hostID.toNat ++ ", error: " ++ err ++ " ")
  | .ok vswitchNetwork => routeToOtherHostNetworks i hostID vswitchNetwork

def computeRoutesForHost (i : IPAM) (hostID : UInt8) :
    Except String (Route × Route) :=
  match routeToOtherHostPods i hostID with
  | .error err =>
      .error ("Can't construct route to pods of host " ++
        toString hostID.toNat ++ ": " ++ err ++ " ")
  | .ok podsRoute =>
      match routeToOtherHostStack i hostID with
      | .error err =>
          .error ("Can't construct route to host " ++
            toString hostID.toNat ++ ": " ++ err ++ " ")
      | .ok hostRoute => .ok (podsRoute, hostRoute)

structure RouteName where
  vrfId : ℕ
  dst : Option IPNet
  nextHop : Option IP
  deriving DecidableEq, Repr

def Route.name (r : Route) : RouteName :=
  ⟨r.vrfId, parseCIDR r.dstIpAddr, parseIP r.nextHopAddr⟩

/-! ## Events -/

inductive ChangeType where
  | put
  | delete
  deriving DecidableEq, Repr

structure ChangeEvent where
  key : String
  changeType : ChangeType
  value : Identifier

def hostID (e : Identifier) : UInt8 := e.id.toUInt8

/-- A handler returns the routes that are installed after it, and its
error. -/
abbrev Handled := Finset RouteName × Option String

def nodeChangePropageteEvent (i : IPAM) (ev : ChangeEvent)
    (routes : Finset RouteName) : Handled :=
  if allocatedIDsKeyPrefix.toList.isPrefixOf ev.key.toList then
    match computeRoutesForHost i (hostID ev.value), ev.changeType with
    | .error err, _ => (routes, some err)
    | .ok (podsRoute, hostRoute), .put =>
        (insert hostRoute.name (insert podsRoute.name routes), none)
    | .ok (podsRoute, hostRoute), .delete =>
        match parseCIDR podsRoute.dstIpAddr, parseCIDR hostRoute.dstIpAddr with
        | none, _ => (routes, some (errParseCIDR podsRoute.dstIpAddr))
        | _, none => (routes, some (errParseCIDR hostRoute.dstIpAddr))
        | some podDest, some hostDest =>
            ((routes.erase ⟨podsRoute.vrfId, podDest,
                parseIP podsRoute.nextHopAddr⟩).erase
              ⟨hostRoute.vrfId, hostDest, parseIP hostRoute.nextHopAddr⟩,
              none)
  else (routes, some ("Unknown key " ++ ev.key))

def nodeResync (i : IPAM) : List (String × Identifier) →
    Finset RouteName → Handled
  | [], routes => (routes, none)
  | kv :: rest, routes =>
      if hostID kv.2 ≠ i.hostID then
        match computeRoutesForHost i (hostID kv.2) with
        | .error err => (routes, some err)
        | .ok (podsRoute, hostRoute) =>
            nodeResync i rest
              (insert hostRoute.name (insert podsRoute.name routes))
      else nodeResync i rest routes

/-! ## Runs -/

/-- The entries of the datastore, and the routes that the handlers have
installed. -/
structure State where
  datastore : Store
  installed : Finset RouteName

/-- A resync comes with all entries of the datastore at that time.  The key of
an entry that changes is the prefix with a suffix. -/
inductive Event where
  | resync (values : Store) (order : RangeOrder (String × Identifier))
  | put (suffix : String) (value : Identifier)
  | delete (suffix : String)

def entryKey (suffix : String) : String := allocatedIDsKeyPrefix ++ suffix

def step (i : IPAM) (s : State) : Event → State
  | .resync values order =>
      ⟨values, (nodeResync i (range order values) s.installed).1⟩
  | .put suffix value =>
      ⟨s.datastore.insert (entryKey suffix) value,
        (nodeChangePropageteEvent i ⟨entryKey suffix, .put, value⟩ s.installed).1⟩
  | .delete suffix =>
      ⟨s.datastore.erase (entryKey suffix),
        (nodeChangePropageteEvent i ⟨entryKey suffix, .delete, ⟨"", 0⟩⟩
          s.installed).1⟩

def run (i : IPAM) (events : List Event) : State :=
  events.foldl (step i) ⟨∅, ∅⟩

/-! ## Computed routes -/

variable {i : IPAM}

def routesTo (i : IPAM) (h : UInt8) : List RouteName :=
  match computeRoutesForHost i h with
  | .error _ => []
  | .ok (podsRoute, hostRoute) => [podsRoute.name, hostRoute.name]

variable {h : UInt8}

theorem computeRoutesForHost_eq_ok {podsRoute hostRoute : Route} :
    computeRoutesForHost i h = .ok (podsRoute, hostRoute) ↔
      ∃ podNetwork vswitchNetwork hostIP,
        i.otherHostPodNetwork h = .ok podNetwork ∧
        i.otherHostVSwitchNetwork h = .ok vswitchNetwork ∧
        i.hostIPAddress h = .ok hostIP ∧
        podsRoute = ⟨0, podNetwork.string, ipString hostIP⟩ ∧
        hostRoute = ⟨0, vswitchNetwork.string, ipString hostIP⟩ := by
  unfold computeRoutesForHost routeToOtherHostPods routeToOtherHostStack
    routeToOtherHostNetworks
  cases i.otherHostPodNetwork h with
  | error err => simp
  | ok podNetwork =>
      cases i.hostIPAddress h with
      | error err => simp
      | ok hostIP =>
          cases i.otherHostVSwitchNetwork h with
          | error err => simp
          | ok vswitchNetwork =>
              simp [eq_comm]

theorem exists_hostIPAddress {ip : IP} (hok : i.hostIPAddress h = .ok ip)
    (h' : UInt8) :
    ∃ ip', i.hostIPAddress h' = .ok ip' := by
  unfold IPAM.hostIPAddress at hok ⊢
  cases hs : ipv4ToUint32 i.hostNodeNetworkIPPrefix.ip with
  | error err =>
      rw [hs] at hok
      cases hok
  | ok s => exact ⟨_, rfl⟩

theorem exists_computeRoutesForHost {routes : Route × Route}
    (hok : computeRoutesForHost i h = .ok routes) (h' : UInt8) :
    ∃ routes', computeRoutesForHost i h' = .ok routes' := by
  obtain ⟨podNetwork, vswitchNetwork, hostIP, hpod, hvswitch, hhost, _⟩ :=
    computeRoutesForHost_eq_ok.mp hok
  obtain ⟨podNetwork', hpod'⟩ := exists_applyHostID hpod h'
  obtain ⟨vswitchNetwork', hvswitch'⟩ := exists_applyHostID hvswitch h'
  obtain ⟨hostIP', hhost'⟩ := exists_hostIPAddress hhost h'
  exact ⟨(_, _), computeRoutesForHost_eq_ok.mpr
    ⟨podNetwork', vswitchNetwork', hostIP', hpod', hvswitch', hhost', rfl,
      rfl⟩⟩

theorem routesTo_eq_nil {err : String}
    (herr : computeRoutesForHost i h = .error err) (h' : UInt8) :
    routesTo i h' = [] := by
  unfold routesTo
  cases hok : computeRoutesForHost i h' with
  | error err' => rfl
  | ok routes =>
      obtain ⟨routes', hroutes'⟩ := exists_computeRoutesForHost hok h
      rw [herr] at hroutes'
      cases hroutes'

theorem exists_parseCIDR_otherHostNetwork {subnet network n : IPNet}
    (hok : otherHostNetwork subnet network h = .ok n) :
    ∃ dst, parseCIDR n.string = some dst := by
  have hmask : ∀ len < 256, prefixMask (UInt8.ofNat len) =
      ByteBits.onesMask (if len ≤ 32 then len else 0) 4 := by
    decide +kernel
  have hlen := hmask (subnetPrefixLen network).toNat
    (subnetPrefixLen network).toNat_lt
  rw [UInt8.ofNat_toNat] at hlen
  unfold otherHostNetwork applyHostID at hok
  cases hs : ipv4ToUint32 subnet.ip with
  | error err =>
      rw [hs] at hok
      cases hok
  | ok s =>
      rw [hs] at hok
      rw [← Except.ok.inj hok, hlen]
      refine ⟨_, parseCIDR_string _ _ _ _ ?_⟩
      split_ifs with hle
      · exact hle
      · exact Nat.zero_le 32

/-! ## Effects of the handlers -/

section Handlers

variable {routes : Finset RouteName} {r : RouteName}

theorem isPrefixOf_entryKey (suffix : String) :
    allocatedIDsKeyPrefix.toList.isPrefixOf (entryKey suffix).toList = true := by
  rw [List.isPrefixOf_iff_prefix, entryKey, String.toList_append]
  exact List.prefix_append _ _

theorem mem_put {suffix : String} {value : Identifier} :
    r ∈ (nodeChangePropageteEvent i ⟨entryKey suffix, .put, value⟩
      routes).1 ↔ r ∈ routes ∨ r ∈ routesTo i (hostID value) := by
  rw [nodeChangePropageteEvent, if_pos (isPrefixOf_entryKey suffix), routesTo]
  cases hok : computeRoutesForHost i (hostID value) with
  | error err => simp
  | ok both =>
      simp only [Finset.mem_insert, List.mem_cons, List.not_mem_nil, or_false]
      rw [← or_assoc, or_comm, or_comm (a := r = both.2.name)]

theorem mem_delete {suffix : String} :
    r ∈ (nodeChangePropageteEvent i ⟨entryKey suffix, .delete, ⟨"", 0⟩⟩
      routes).1 ↔ r ∈ routes ∧ r ∉ routesTo i 0 := by
  have hzero : hostID ⟨"", 0⟩ = 0 := rfl
  rw [nodeChangePropageteEvent, if_pos (isPrefixOf_entryKey suffix), routesTo]
  simp only [hzero]
  cases hok : computeRoutesForHost i 0 with
  | error err => simp
  | ok both =>
      obtain ⟨podNetwork, vswitchNetwork, hostIP, hpod, hvswitch, _, hp, hq⟩ :=
        computeRoutesForHost_eq_ok.mp hok
      obtain ⟨podDest, hpodDest⟩ := exists_parseCIDR_otherHostNetwork hpod
      obtain ⟨hostDest, hhostDest⟩ :=
        exists_parseCIDR_otherHostNetwork hvswitch
      have hpodDest' : parseCIDR both.1.dstIpAddr = some podDest := by
        rw [hp]
        exact hpodDest
      have hhostDest' : parseCIDR both.2.dstIpAddr = some hostDest := by
        rw [hq]
        exact hhostDest
      simp only [hpodDest', hhostDest', Route.name, Finset.mem_erase,
        List.mem_cons, List.not_mem_nil, or_false, not_or, ne_eq]
      exact ⟨fun h => ⟨h.2.2, h.2.1, h.1⟩, fun h => ⟨h.2.2, h.2.1, h.1⟩⟩

theorem mem_nodeResync {entries : List (String × Identifier)} :
    r ∈ (nodeResync i entries routes).1 ↔ r ∈ routes ∨
      ∃ kv ∈ entries, hostID kv.2 ≠ i.hostID ∧ r ∈ routesTo i (hostID kv.2) := by
  induction entries generalizing routes with
  | nil => simp [nodeResync]
  | cons kv rest ih =>
      rw [nodeResync, List.exists_mem_cons_iff]
      split_ifs with hown
      · cases hok : computeRoutesForHost i (hostID kv.2) with
        | error err =>
            -- The loop ends here, but the other nodes have no routes either.
            have hnil := routesTo_eq_nil hok
            simp [hnil]
        | ok both =>
            have hmem : r ∈ routesTo i (hostID kv.2) ↔
                r = both.2.name ∨ r = both.1.name := by
              rw [routesTo, hok]
              simp [or_comm]
            rw [ih, Finset.mem_insert, Finset.mem_insert, hmem,
              and_iff_right hown, ← or_assoc, ← or_assoc]
            exact or_congr_left or_comm
      · rw [ih, or_iff_right (a := hostID kv.2 ≠ i.hostID ∧ _)
          (fun h => hown h.1)]

end Handlers

/-! ## Wanted routes -/

def Wanted (i : IPAM) (datastore : Store) (r : RouteName) : Prop :=
  ∃ key e, datastore.lookup key = some e ∧ hostID e ≠ i.hostID ∧
    r ∈ routesTo i (hostID e)

/-- The installed routes are those to the other nodes in the datastore. -/
def Exact (i : IPAM) (s : State) : Prop :=
  ∀ r, r ∈ s.installed ↔ Wanted i s.datastore r

/-- What an event has to be like for the handlers to treat it properly, in
terms of the datastore before it.
* With a resync, no route to another node has become obsolete.
* A put is not for the own node, unless the routes to its host ID are wanted
  for another entry; and it does not replace an entry whose routes are wanted
  no more.
* With a delete, the routes that become obsolete are those of host zero. -/
def Proper (i : IPAM) (datastore : Store) : Event → Prop
  | .resync values _ =>
      ∀ r, Wanted i datastore r → Wanted i values r
  | .put suffix value =>
      (hostID value = i.hostID → ∀ r ∈ routesTo i (hostID value),
        Wanted i (datastore.insert (entryKey suffix) value) r) ∧
      ∀ r, Wanted i datastore r →
        Wanted i (datastore.insert (entryKey suffix) value) r
  | .delete suffix =>
      ∀ r, Wanted i datastore r → (r ∈ routesTo i 0 ↔
          ¬ Wanted i (datastore.erase (entryKey suffix)) r)

theorem wanted_of_insert {datastore : Store} {key : String}
    {value : Identifier} {r : RouteName}
    (h : Wanted i (datastore.insert key value) r) :
    Wanted i datastore r ∨ r ∈ routesTo i (hostID value) := by
  obtain ⟨key', e, hlookup, hown, hr⟩ := h
  by_cases hkey : key' = key
  · subst hkey
    rw [AList.lookup_insert, Option.some.injEq] at hlookup
    exact Or.inr (hlookup ▸ hr)
  · rw [AList.lookup_insert_ne hkey] at hlookup
    exact Or.inl ⟨key', e, hlookup, hown, hr⟩

theorem wanted_of_erase {datastore : Store} {key : String} {r : RouteName}
    (h : Wanted i (datastore.erase key) r) : Wanted i datastore r := by
  obtain ⟨key', e, hlookup, hown, hr⟩ := h
  by_cases hkey : key' = key
  · subst hkey
    rw [AList.lookup_erase] at hlookup
    cases hlookup
  · rw [AList.lookup_erase_ne hkey] at hlookup
    exact ⟨key', e, hlookup, hown, hr⟩

theorem Exact.step_iff {s : State} (h : Exact i s) (ev : Event) :
    Exact i (NodeRoutes.step i s ev) ↔ Proper i s.datastore ev := by
  cases ev with
  | resync values order =>
      have hmem : ∀ r, r ∈ (nodeResync i (range order values)
          s.installed).1 ↔ Wanted i s.datastore r ∨ Wanted i values r := by
        intro r
        rw [mem_nodeResync, h r]
        refine or_congr_right ⟨?_, ?_⟩
        · intro hex
          obtain ⟨kv, hkv, hown, hr⟩ := hex
          exact ⟨kv.1, kv.2, mem_range.mp hkv, hown, hr⟩
        · intro hwanted
          obtain ⟨key, e, hlookup, hown, hr⟩ := hwanted
          exact ⟨(key, e), mem_range.mpr hlookup, hown, hr⟩
      change (∀ r, r ∈ (nodeResync i (range order values) s.installed).1 ↔
        Wanted i values r) ↔ _
      simp only [hmem, or_iff_right_iff_imp]
      rfl
  | put suffix value =>
      change (∀ r, r ∈ (nodeChangePropageteEvent i
        ⟨entryKey suffix, .put, value⟩ s.installed).1 ↔ Wanted i
          (s.datastore.insert (entryKey suffix) value) r) ↔ _
      simp only [mem_put, h _]
      constructor
      · intro hall
        exact ⟨fun _ r hr => (hall r).mp (Or.inr hr),
          fun r hr => (hall r).mp (Or.inl hr)⟩
      · intro hproper r
        refine ⟨fun hr => ?_, wanted_of_insert⟩
        rcases hr with hr | hr
        · exact hproper.2 r hr
        · by_cases hown : hostID value = i.hostID
          · exact hproper.1 hown r hr
          · exact ⟨entryKey suffix, value, AList.lookup_insert _, hown, hr⟩
  | delete suffix =>
      change (∀ r, r ∈ (nodeChangePropageteEvent i
        ⟨entryKey suffix, .delete, ⟨"", 0⟩⟩ s.installed).1 ↔ Wanted i
          (s.datastore.erase (entryKey suffix)) r) ↔ _
      simp only [mem_delete, h _]
      constructor
      · intro hall r hr
        rw [← hall r, and_iff_right hr, not_not]
      · intro hproper r
        constructor
        · intro hr
          by_contra hobsolete
          exact hr.2 ((hproper r hr.1).mpr hobsolete)
        · intro hwanted
          have hbefore := wanted_of_erase hwanted
          exact ⟨hbefore, fun hzero => (hproper r hbefore).mp hzero hwanted⟩

theorem exact_nil : Exact i (run i []) := by
  intro r
  change r ∈ (∅ : Finset RouteName) ↔ Wanted i ∅ r
  simp [Wanted]

/-- After every event of a run, the installed routes are those to the other
nodes in the datastore, just if every event is a proper one. -/
theorem run_exact_iff (i : IPAM) (events : List Event) :
    (∀ before, before <+: events → Exact i (run i before)) ↔
      ∀ before ev, before ++ [ev] <+: events →
        Proper i (run i before).datastore ev := by
  have hstep : ∀ before ev, run i (before ++ [ev]) =
      step i (run i before) ev := by
    intro before ev
    rw [run, List.foldl_append]
    rfl
  refine RunCondition.forall_prefix_iff exact_nil (fun _ h => h) ?_ ?_
  · intro before ev _ h hproper
    rw [hstep]
    exact (h.step_iff ev).mpr hproper
  · intro before ev _ h h'
    rw [hstep] at h'
    exact (h.step_iff ev).mp h'

/-- Node 2 is added and removed, and its routes stay. -/
theorem not_exact_of_delete : newIPAM 1 defaultConfig = .ok defaultIPAM ∧
      ¬ Exact defaultIPAM (run defaultIPAM [.resync ∅ .insertion,
        .put "2" ⟨"node2", 2⟩, .delete "2"]) := by
  refine ⟨newIPAM_defaultConfig, fun hexact => ?_⟩
  have hempty : (run defaultIPAM [.resync ∅ .insertion,
      .put "2" ⟨"node2", 2⟩, .delete "2"]).datastore = ∅ := by rfl
  have hinstalled : ⟨0, some ⟨[10, 1, 2, 0], [255, 255, 255, 0]⟩,
      some (v4InV6Prefix ++ [192, 168, 16, 2])⟩ ∈ (run defaultIPAM
        [.resync ∅ .insertion, .put "2" ⟨"node2", 2⟩,
          .delete "2"]).installed := by
    decide +kernel
  rw [hexact _, hempty] at hinstalled
  obtain ⟨key, e, hlookup, _⟩ := hinstalled
  cases hlookup

end ContivVPP.NodeRoutes
