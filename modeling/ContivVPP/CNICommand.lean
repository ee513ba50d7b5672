import ContivVPP.NetText
import ContivVPP.PartialLoops

/-!
# The CNI command that adds a container

The CNI plugin forwards a request to the server and prints the reply as a CNI
result.  An address of the result refers to its interface by a pointer to an
index.  The loop over the interfaces has one variable for the index, and the
pointers are to this variable; they are followed when the result is printed.
-/

namespace ContivVPP.Net

/-- The address that `ParseCIDR` returns besides the network. -/
def cidrHost (text : String) : Option IP :=
  let addr := text.toList.takeWhile (· != '/')
  match parseIPv4 addr with
  | some ip => some ip
  | none => parseIPv6 addr

theorem cidrHost_ne_none {text : String} (h : parseCIDR text ≠ none) :
    cidrHost text ≠ none := by
  intro hnone
  apply h
  cases hip4 : parseIPv4 (text.toList.takeWhile (· != '/')) with
  | some ip => simp [cidrHost, hip4] at hnone
  | none =>
      have hip6 : parseIPv6 (text.toList.takeWhile (· != '/')) = none := by
        simpa [cidrHost, hip4] using hnone
      simp only [parseCIDR, hip4, hip6, Option.map_none]
      split <;> rfl

end ContivVPP.Net

namespace ContivVPP.CNIPlugin

open Net PartialLoops

/-! ## The reply of the server -/

inductive IPVersion
  | ipv4
  | ipv6
  deriving DecidableEq, Repr

structure ReplyIP where
  version : IPVersion
  address : String
  gateway : String
  deriving DecidableEq, Repr

structure ReplyInterface where
  name : String
  mac : String
  sandbox : String
  ipAddresses : List ReplyIP
  deriving DecidableEq, Repr

structure ReplyRoute where
  dst : String
  gw : String
  deriving DecidableEq, Repr

structure DNS where
  nameservers : List String
  domain : String
  search : List String
  options : List String
  deriving DecidableEq, Repr

/-- The plugin does not look at the result code and the error text. -/
structure CNIReply where
  interfaces : List ReplyInterface
  routes : List ReplyRoute
  dns : List DNS
  deriving DecidableEq, Repr

structure CNIRequest where
  version : String
  containerId : String
  interfaceName : String
  networkNamespace : String
  extraArguments : String
  extraNwConfig : String
  deriving DecidableEq, Repr

/-! ## The result -/

abbrev Ref := ℕ
abbrev Memory := Ref → ℕ

structure Interface where
  name : String
  mac : String
  sandbox : String
  deriving DecidableEq, Repr

structure IPConfig where
  version : String
  interface : Ref
  address : IPNet
  gateway : Option IP
  deriving DecidableEq, Repr

structure Route where
  dst : IPNet
  gw : Option IP
  deriving DecidableEq, Repr

structure Result where
  cniVersion : String
  interfaces : List Interface
  ips : List IPConfig
  routes : List Route
  dns : DNS
  deriving DecidableEq, Repr

structure PrintedIP where
  version : String
  interface : ℕ
  address : IPNet
  gateway : Option IP
  deriving DecidableEq, Repr

structure Printed where
  cniVersion : String
  interfaces : List Interface
  ips : List PrintedIP
  routes : List Route
  dns : DNS
  deriving DecidableEq, Repr

def Result.print (memory : Memory) (result : Result) : Printed where
  cniVersion := result.cniVersion
  interfaces := result.interfaces
  ips := result.ips.map fun c =>
    ⟨c.version, memory c.interface, c.address, c.gateway⟩
  routes := result.routes
  dns := result.dns

/-! ## The command -/

def netParseCIDR (text : String) : Except String IPNet :=
  match parseCIDR text with
  | some n => .ok n
  | none => .error ("invalid CIDR address: " ++ text)

def ifidx : Ref := 0

def versionText (version : IPVersion) : String :=
  if version = .ipv6 then "6" else "4"

-- A gateway that is not an address becomes nil; the error that is tested
-- afterwards is that of `ParseCIDR`.
def addAddress (result : Result) (ip : ReplyIP) : Except String Result := do
  let ipAddr ← netParseCIDR ip.address
  let gwAddr := if ip.gateway ≠ "" then parseIP ip.gateway else none
  return { result with
    ips := result.ips ++ [⟨versionText ip.version, ifidx, ipAddr, gwAddr⟩] }

def addInterface (s : Memory × Result) (entry : ReplyInterface × ℕ) :
    Except String (Memory × Result) := do
  let iface := entry.1
  let result := { s.2 with
    interfaces := s.2.interfaces ++ [⟨iface.name, iface.mac, iface.sandbox⟩] }
  let result ← iface.ipAddresses.foldlM addAddress result
  return (Function.update s.1 ifidx entry.2, result)

def addRoute (result : Result) (route : ReplyRoute) : Except String Result := do
  let dstIP ← netParseCIDR route.dst
  return { result with
    routes := result.routes ++ [⟨dstIP, parseIP route.gw⟩] }

def processReply (cniVersion : String) (r : CNIReply) :
    Except String Printed := do
  let s ← r.interfaces.zipIdx.foldlM addInterface
    (fun _ => 0, ⟨cniVersion, [], [], [], ⟨[], "", [], []⟩⟩)
  let result ← r.routes.foldlM addRoute s.2
  let result := r.dns.foldl (fun result dns => { result with dns := dns }) result
  return result.print s.1

structure CmdArgs where
  containerID : String
  netns : String
  ifName : String
  args : String
  stdinData : String
  deriving DecidableEq, Repr

structure CniConfig where
  cniVersion : String
  prevResult : Option String
  grpcServer : String
  deriving DecidableEq, Repr

/-- The reader of JSON, and the server: errors of the connection, and the
answers to requests. -/
structure Environment where
  unmarshal : String → Except String CniConfig
  connect : String → Except String Unit
  add : String → CNIRequest → Except String CNIReply

def parseCNIConfig (env : Environment) (bytes : String) :
    Except String CniConfig :=
  match env.unmarshal bytes with
  | .error err => .error ("failed to load plugin config: " ++ err)
  | .ok conf =>
      if conf.prevResult.isSome then
        .error "CNI chaining is not supported by this plugin"
      else if conf.grpcServer = "" then
        .error ("\"grpcServer\" field is required. It specifies where " ++
          "the CNI requests should be forwarded to")
      else .ok conf

def addRequest (cfg : CniConfig) (args : CmdArgs) : CNIRequest :=
  ⟨cfg.cniVersion, args.containerID, args.ifName, args.netns, args.args,
    args.stdinData⟩

def cmdAdd (env : Environment) (args : CmdArgs) : Except String Printed := do
  let cfg ← parseCNIConfig env args.stdinData
  env.connect cfg.grpcServer
  let r ← env.add cfg.grpcServer (addRequest cfg args)
  processReply cfg.cniVersion r

/-! ## Faithful results -/

def CNIReply.addresses (r : CNIReply) : List (ℕ × ReplyIP) :=
  r.interfaces.zipIdx.flatMap fun entry =>
    entry.1.ipAddresses.map fun ip => (entry.2, ip)

def IsGateway (text : String) (gateway : Option IP) : Prop :=
  (text = "" ∧ gateway = none) ∨
    ∃ ip, parseIP text = some ip ∧ gateway = some ip

/-- The printed address has the host address and the prefix of the reply, its
gateway and version, and the index of its interface. -/
structure FaithfulIP (a : ℕ × ReplyIP) (out : PrintedIP) : Prop where
  address : ∃ host n, cidrHost a.2.address = some host ∧
    parseCIDR a.2.address = some n ∧
    ipEqual host out.address.ip = true ∧ out.address.mask = n.mask
  gateway : IsGateway a.2.gateway out.gateway
  version : out.version = versionText a.2.version
  interface : out.interface = a.1

structure FaithfulRoute (route : ReplyRoute) (out : Route) : Prop where
  dst : parseCIDR route.dst = some out.dst
  gw : IsGateway route.gw out.gw

structure Faithful (r : CNIReply) (printed : Printed) : Prop where
  interfaces : printed.interfaces =
    r.interfaces.map fun iface => ⟨iface.name, iface.mac, iface.sandbox⟩
  ips : List.Forall₂ FaithfulIP r.addresses printed.ips
  routes : List.Forall₂ FaithfulRoute r.routes printed.routes

structure CNIReply.WellFormed (r : CNIReply) : Prop where
  addresses : ∀ iface ∈ r.interfaces, ∀ ip ∈ iface.ipAddresses,
    parseCIDR ip.address ≠ none
  routes : ∀ route ∈ r.routes, parseCIDR route.dst ≠ none

/-- What the plugin translates faithfully: addresses of the last interface
only, which are the addresses of their networks, and gateways that are
addresses. -/
structure CNIReply.Translatable (r : CNIReply) : Prop where
  lastOnly : ∀ iface ∈ r.interfaces.dropLast, iface.ipAddresses = []
  noHostBits : ∀ iface ∈ r.interfaces, ∀ ip ∈ iface.ipAddresses,
    ∀ host n, cidrHost ip.address = some host →
      parseCIDR ip.address = some n → ipEqual host n.ip = true
  gateways : ∀ iface ∈ r.interfaces, ∀ ip ∈ iface.ipAddresses,
    ip.gateway = "" ∨ parseIP ip.gateway ≠ none
  routeGateways : ∀ route ∈ r.routes,
    route.gw = "" ∨ parseIP route.gw ≠ none

/-! ## The loops -/

theorem netParseCIDR_of_ne_none {text : String} (h : parseCIDR text ≠ none) :
    ∃ n, parseCIDR text = some n ∧ netParseCIDR text = .ok n := by
  obtain ⟨n, hn⟩ := Option.ne_none_iff_exists'.mp h
  exact ⟨n, hn, by simp [netParseCIDR, hn]⟩

def networkOf (text : String) : IPNet :=
  (parseCIDR text).getD .any

def ReplyIP.config (ip : ReplyIP) : IPConfig :=
  ⟨versionText ip.version, ifidx, networkOf ip.address,
    if ip.gateway ≠ "" then parseIP ip.gateway else none⟩

theorem foldlM_addAddress {ips : List ReplyIP}
    (h : ∀ ip ∈ ips, parseCIDR ip.address ≠ none) (result : Result) :
    ips.foldlM addAddress result =
      .ok { result with ips := result.ips ++ ips.map ReplyIP.config } := by
  induction ips generalizing result with
  | nil => simp [pure, Except.pure]
  | cons ip ips ih =>
      obtain ⟨n, hn, hparse⟩ :=
        netParseCIDR_of_ne_none (h ip List.mem_cons_self)
      have hstep : addAddress result ip =
          .ok { result with ips := result.ips ++ [ip.config] } := by
        simp [addAddress, hparse, ReplyIP.config, networkOf, hn]
      rw [List.foldlM_cons, hstep]
      change List.foldlM addAddress _ ips = _
      rw [ih fun ip' hip' => h ip' (List.mem_cons_of_mem ip hip')]
      simp

def ReplyInterface.interface (iface : ReplyInterface) : Interface :=
  ⟨iface.name, iface.mac, iface.sandbox⟩

theorem foldlM_addInterface {entries : List (ReplyInterface × ℕ)}
    (h : ∀ entry ∈ entries, ∀ ip ∈ entry.1.ipAddresses,
      parseCIDR ip.address ≠ none) (memory : Memory) (result : Result) :
    ∃ memory', entries.foldlM addInterface (memory, result) =
        .ok (memory', { result with
          interfaces := result.interfaces ++
            entries.map fun entry => entry.1.interface
          ips := result.ips ++ entries.flatMap fun entry =>
            entry.1.ipAddresses.map ReplyIP.config }) ∧
      memory' ifidx = (entries.getLast?.map Prod.snd).getD (memory ifidx) := by
  induction entries generalizing memory result with
  | nil => exact ⟨memory, by simp [pure, Except.pure], rfl⟩
  | cons entry entries ih =>
      have hstep : addInterface (memory, result) entry =
          .ok (Function.update memory ifidx entry.2, { result with
            interfaces := result.interfaces ++ [entry.1.interface]
            ips := result.ips ++ entry.1.ipAddresses.map ReplyIP.config }) := by
        simp only [addInterface, foldlM_addAddress (h entry List.mem_cons_self)]
        rfl
      obtain ⟨memory', hrest, hlast⟩ := ih
        (fun entry' hentry' => h entry' (List.mem_cons_of_mem entry hentry'))
        (Function.update memory ifidx entry.2) { result with
            interfaces := result.interfaces ++ [entry.1.interface]
            ips := result.ips ++ entry.1.ipAddresses.map ReplyIP.config }
      refine ⟨memory', ?_, ?_⟩
      · rw [List.foldlM_cons, hstep]
        change List.foldlM addInterface _ entries = _
        rw [hrest]
        simp
      · rw [hlast, Function.update_self, List.getLast?_cons]
        cases entries.getLast? <;> rfl

theorem foldlM_addRoute {routes : List ReplyRoute}
    (h : ∀ route ∈ routes, parseCIDR route.dst ≠ none) (result : Result) :
    routes.foldlM addRoute result =
      .ok { result with routes := result.routes ++ routes.map fun route =>
        ⟨networkOf route.dst, parseIP route.gw⟩ } := by
  induction routes generalizing result with
  | nil => simp [pure, Except.pure]
  | cons route routes ih =>
      obtain ⟨n, hn, hparse⟩ :=
        netParseCIDR_of_ne_none (h route List.mem_cons_self)
      have hstep : addRoute result route =
          .ok { result with routes := result.routes ++
            [⟨networkOf route.dst, parseIP route.gw⟩] } := by
        simp [addRoute, hparse, networkOf, hn]
      rw [List.foldlM_cons, hstep]
      change List.foldlM addRoute _ routes = _
      rw [ih fun route' hroute' => h route' (List.mem_cons_of_mem route hroute')]
      simp

theorem exists_foldl_dns (entries : List DNS) (result : Result) :
    ∃ dns, entries.foldl (fun result dns => { result with dns := dns })
      result = { result with dns := dns } := by
  induction entries generalizing result with
  | nil => exact ⟨result.dns, rfl⟩
  | cons entry entries ih =>
      obtain ⟨dns, hdns⟩ := ih { result with dns := entry }
      exact ⟨dns, hdns⟩

def CNIReply.linked (r : CNIReply) (cniVersion : String) : Result :=
  ⟨cniVersion, r.interfaces.map ReplyInterface.interface,
    r.addresses.map fun a => a.2.config, [], ⟨[], "", [], []⟩⟩

variable {r : CNIReply}

theorem foldlM_interfaces (h : r.WellFormed) (cniVersion : String) :
    ∃ memory, r.interfaces.zipIdx.foldlM addInterface
        (fun _ => 0, ⟨cniVersion, [], [], [], ⟨[], "", [], []⟩⟩) =
        .ok (memory, r.linked cniVersion) ∧
      memory ifidx = r.interfaces.length - 1 := by
  obtain ⟨memory, hloop, hlast⟩ := foldlM_addInterface
    (fun entry hentry => h.addresses entry.1
      (List.fst_mem_of_mem_zipIdx hentry)) (fun _ => 0)
    ⟨cniVersion, [], [], [], ⟨[], "", [], []⟩⟩
  refine ⟨memory, ?_, ?_⟩
  · have hinterfaces : r.interfaces.zipIdx.map (fun entry => entry.1.interface) =
        r.interfaces.map ReplyInterface.interface := by
      have hfst := congrArg (List.map ReplyInterface.interface)
        (List.zipIdx_map_fst 0 r.interfaces)
      rwa [List.map_map] at hfst
    rw [hloop, hinterfaces]
    simp [CNIReply.linked, CNIReply.addresses, List.map_flatMap,
      Function.comp_def]
  · rw [hlast, List.getLast?_zipIdx, Option.map_map]
    cases hnil : r.interfaces.getLast? with
    | none =>
        rw [List.getLast?_eq_none_iff] at hnil
        simp [hnil]
    | some iface => simp

def CNIReply.routed (r : CNIReply) (cniVersion : String) : Result :=
  { r.linked cniVersion with routes := r.routes.map fun route =>
    ⟨networkOf route.dst, parseIP route.gw⟩ }

/-- The address that the code prints for an entry of the reply. -/
def ReplyIP.printed (index : ℕ) (ip : ReplyIP) : PrintedIP :=
  ⟨ip.config.version, index, ip.config.address, ip.config.gateway⟩

/-- The addresses of the result in the order of the reply, all with the index
of the last interface. -/
theorem processReply_eq (h : r.WellFormed) (cniVersion : String) :
    ∃ printed, processReply cniVersion r = .ok printed ∧
      printed.interfaces = r.interfaces.map ReplyInterface.interface ∧
      printed.ips = r.addresses.map (fun a =>
        a.2.printed (r.interfaces.length - 1)) ∧
      printed.routes = r.routes.map fun route =>
        ⟨networkOf route.dst, parseIP route.gw⟩ := by
  obtain ⟨memory, hloop, hindex⟩ := foldlM_interfaces h cniVersion
  have hroutes : r.routes.foldlM addRoute (r.linked cniVersion) =
      .ok (r.routed cniVersion) := by
    rw [foldlM_addRoute h.routes]
    rfl
  obtain ⟨dns, hdns⟩ := exists_foldl_dns r.dns (r.routed cniVersion)
  have hprocess : processReply cniVersion r =
      .ok (Result.print memory { r.routed cniVersion with dns := dns }) := by
    rw [← hdns, processReply, hloop]
    change (do
      let result ← r.routes.foldlM addRoute (r.linked cniVersion)
      return Result.print memory (r.dns.foldl _ result)) = _
    rw [hroutes]
    rfl
  refine ⟨_, hprocess, rfl, ?_, rfl⟩
  simp [Result.print, CNIReply.routed, CNIReply.linked, ReplyIP.printed,
    ReplyIP.config, hindex]

/-! ## When the result is faithful -/

theorem mem_addresses_iff {i : ℕ} {ip : ReplyIP} : (i, ip) ∈ r.addresses ↔
      ∃ iface, r.interfaces[i]? = some iface ∧ ip ∈ iface.ipAddresses := by
  simp only [CNIReply.addresses, List.mem_flatMap, List.mem_map, Prod.mk.injEq]
  constructor
  · rintro ⟨⟨iface, j⟩, hentry, ip', hip', rfl, rfl⟩
    exact ⟨iface, List.mem_zipIdx_iff_getElem?.mp hentry, hip'⟩
  · rintro ⟨iface, hiface, hip⟩
    exact ⟨(iface, i), List.mem_zipIdx_iff_getElem?.mpr hiface, ip, hip, rfl,
      rfl⟩

theorem isGateway_iff {text : String} {gateway : Option IP}
    (hgateway : gateway = if text ≠ "" then parseIP text else none) :
    IsGateway text gateway ↔ text = "" ∨ parseIP text ≠ none := by
  by_cases htext : text = ""
  · simp [IsGateway, hgateway, htext]
  · cases hparse : parseIP text with
    | none => simp [IsGateway, htext, hparse]
    | some ip => simp [IsGateway, hgateway, htext, hparse]

theorem faithfulIP_printed_iff {i index : ℕ} {ip : ReplyIP}
    (h : parseCIDR ip.address ≠ none) :
    FaithfulIP (i, ip) (ip.printed index) ↔
      (∀ host n, cidrHost ip.address = some host →
        parseCIDR ip.address = some n → ipEqual host n.ip = true) ∧
        (ip.gateway = "" ∨ parseIP ip.gateway ≠ none) ∧ index = i := by
  obtain ⟨n, hn⟩ := Option.ne_none_iff_exists'.mp h
  obtain ⟨host, hhost⟩ :=
    Option.ne_none_iff_exists'.mp (cidrHost_ne_none h)
  have hgateway : IsGateway ip.gateway (ip.printed index).gateway ↔
      ip.gateway = "" ∨ parseIP ip.gateway ≠ none := isGateway_iff rfl
  have hnetwork : (ip.printed index).address = n := by
    simp [ReplyIP.printed, ReplyIP.config, networkOf, hn]
  constructor
  · intro hfaithful
    obtain ⟨host', n', hhost', hn', hequal, -⟩ := hfaithful.address
    refine ⟨?_, hgateway.mp hfaithful.gateway, hfaithful.interface⟩
    rintro host₁ n₁ hhost₁ hn₁
    obtain rfl : host' = host₁ := Option.some.inj (hhost'.symm.trans hhost₁)
    obtain rfl : n = n₁ := Option.some.inj (hn.symm.trans hn₁)
    rwa [hnetwork] at hequal
  · rintro ⟨hbits, hgw, rfl⟩
    refine ⟨⟨host, n, hhost, hn, ?_, ?_⟩, hgateway.mpr hgw, rfl, rfl⟩
    · rw [hnetwork]
      exact hbits host n hhost hn
    · rw [hnetwork]

theorem faithfulRoute_iff {route : ReplyRoute} (h : parseCIDR route.dst ≠ none) :
    FaithfulRoute route ⟨networkOf route.dst, parseIP route.gw⟩ ↔
      route.gw = "" ∨ parseIP route.gw ≠ none := by
  obtain ⟨n, hn⟩ := Option.ne_none_iff_exists'.mp h
  have hgateway : IsGateway route.gw (parseIP route.gw) ↔
      route.gw = "" ∨ parseIP route.gw ≠ none := by
    by_cases hempty : route.gw = ""
    · rw [hempty]
      exact isGateway_iff (by decide +kernel)
    · exact isGateway_iff (by simp [hempty])
  constructor
  · intro hfaithful
    exact hgateway.mp hfaithful.gw
  · intro hgw
    exact ⟨by simp [networkOf, hn], hgateway.mpr hgw⟩

theorem forall_addresses_last_iff :
    (∀ a ∈ r.addresses, r.interfaces.length - 1 = a.1) ↔
      ∀ iface ∈ r.interfaces.dropLast, iface.ipAddresses = [] := by
  constructor
  · intro h iface hiface
    obtain ⟨i, hi⟩ := List.mem_iff_getElem?.mp hiface
    have hlt : i < r.interfaces.length - 1 := by
      have := (List.getElem?_eq_some_iff.mp hi).1
      simpa using this
    rw [List.getElem?_dropLast, if_pos hlt] at hi
    refine List.eq_nil_iff_forall_not_mem.mpr fun ip hip => ?_
    have hindex := h (i, ip) (mem_addresses_iff.mpr ⟨iface, hi, hip⟩)
    simp only at hindex
    omega
  · rintro h ⟨i, ip⟩ hmem
    obtain ⟨iface, hiface, hip⟩ := mem_addresses_iff.mp hmem
    have hlt : i < r.interfaces.length :=
      (List.getElem?_eq_some_iff.mp hiface).1
    by_contra hne
    have hi : i < r.interfaces.length - 1 := by
      simp only at hne
      omega
    have hdrop : r.interfaces.dropLast[i]? = some iface := by
      rw [List.getElem?_dropLast, if_pos hi, hiface]
    rw [h iface (List.mem_of_getElem? hdrop)] at hip
    simp at hip

theorem forall_addresses_iff {P : ReplyIP → Prop} : (∀ a ∈ r.addresses, P a.2) ↔
      ∀ iface ∈ r.interfaces, ∀ ip ∈ iface.ipAddresses, P ip := by
  constructor
  · intro h iface hiface ip hip
    obtain ⟨i, hi⟩ := List.mem_iff_getElem?.mp hiface
    exact h (i, ip) (mem_addresses_iff.mpr ⟨iface, hi, hip⟩)
  · rintro h ⟨i, ip⟩ hmem
    obtain ⟨iface, hiface, hip⟩ := mem_addresses_iff.mp hmem
    exact h iface (List.mem_of_getElem? hiface) ip hip

theorem forall₂_faithfulIP_iff (h : r.WellFormed) :
    List.Forall₂ FaithfulIP r.addresses
        (r.addresses.map fun a => a.2.printed (r.interfaces.length - 1)) ↔
      ∀ a ∈ r.addresses, (∀ host n, cidrHost a.2.address = some host →
        parseCIDR a.2.address = some n → ipEqual host n.ip = true) ∧
        (a.2.gateway = "" ∨ parseIP a.2.gateway ≠ none) ∧
        r.interfaces.length - 1 = a.1 := by
  rw [List.forall₂_map_right_iff, List.forall₂_same]
  refine forall₂_congr fun a ha => faithfulIP_printed_iff ?_
  exact forall_addresses_iff.mpr h.addresses a ha

theorem forall₂_faithfulRoute_iff (h : r.WellFormed) :
    List.Forall₂ FaithfulRoute r.routes (r.routes.map fun route =>
        ⟨networkOf route.dst, parseIP route.gw⟩) ↔
      ∀ route ∈ r.routes, route.gw = "" ∨ parseIP route.gw ≠ none := by
  rw [List.forall₂_map_right_iff, List.forall₂_same]
  exact forall₂_congr fun route hroute =>
    faithfulRoute_iff (h.routes route hroute)

theorem processReply_faithful_iff (h : r.WellFormed) (cniVersion : String) :
    (∃ printed, processReply cniVersion r = .ok printed ∧
      Faithful r printed) ↔ r.Translatable := by
  obtain ⟨printed, hprocess, hinterfaces, hips, hroutes⟩ :=
    processReply_eq h cniVersion
  have hips_iff := forall₂_faithfulIP_iff h
  have hroutes_iff := forall₂_faithfulRoute_iff h
  constructor
  · rintro ⟨printed', hprocess', hfaithful⟩
    obtain rfl : printed = printed' :=
      Except.ok.inj (hprocess.symm.trans hprocess')
    have haddresses := hips_iff.mp (hips ▸ hfaithful.ips)
    exact {
      lastOnly := forall_addresses_last_iff.mp fun a ha =>
        (haddresses a ha).2.2
      noHostBits := forall_addresses_iff.mp fun a ha => (haddresses a ha).1
      gateways := forall_addresses_iff.mp fun a ha => (haddresses a ha).2.1
      routeGateways := hroutes_iff.mp (hroutes ▸ hfaithful.routes) }
  · intro htranslatable
    refine ⟨printed, hprocess, hinterfaces, ?_, ?_⟩
    · rw [hips]
      refine hips_iff.mpr fun a ha => ⟨?_, ?_, ?_⟩
      · exact forall_addresses_iff.mpr htranslatable.noHostBits a ha
      · exact forall_addresses_iff.mpr htranslatable.gateways a ha
      · exact forall_addresses_last_iff.mpr htranslatable.lastOnly a ha
    · rw [hroutes]
      exact hroutes_iff.mpr htranslatable.routeGateways

/-- The result of the command is a faithful translation of the reply just if
only the last interface has addresses, these have no host bits, and all
gateways are addresses. -/
theorem cmdAdd_faithful_iff {env : Environment} {args : CmdArgs}
    {cfg : CniConfig} {r : CNIReply}
    (hcfg : parseCNIConfig env args.stdinData = .ok cfg)
    (hconnect : env.connect cfg.grpcServer = .ok ())
    (hreply : env.add cfg.grpcServer (addRequest cfg args) = .ok r)
    (hwf : r.WellFormed) :
    (∃ printed, cmdAdd env args = .ok printed ∧ Faithful r printed) ↔
      r.Translatable := by
  have hcmd : cmdAdd env args = processReply cfg.cniVersion r := by
    simp [cmdAdd, hcfg, hconnect, hreply, bind, Except.bind]
  rw [hcmd]
  exact processReply_faithful_iff hwf cfg.cniVersion

def answering (r : CNIReply) : Environment where
  unmarshal _ := .ok ⟨"0.3.1", none, "localhost:9111"⟩
  connect _ := .ok ()
  add _ _ := .ok r

def podArgs : CmdArgs :=
  ⟨"c1", "/proc/7/ns/net", "eth0", "", "config"⟩

def podReply : CNIReply where
  interfaces := [⟨"lo", "", "", []⟩, ⟨"eth0", "00:00:00:00:00:02", "",
    [⟨.ipv4, "10.1.1.3/32", "10.1.1.1"⟩, ⟨.ipv6, "fd00::3/128", ""⟩]⟩]
  routes := [⟨"10.1.1.1/32", ""⟩, ⟨"0.0.0.0/0", "10.1.1.1"⟩]
  dns := []

def twoInterfaceReply : CNIReply where
  interfaces := [⟨"eth0", "00:00:00:00:00:02", "", [⟨.ipv4, "10.1.1.3/24",
    "10.1.1.1"⟩]⟩, ⟨"eth1", "00:00:00:00:00:03", "", [⟨.ipv4, "10.1.2.3/24",
    "10.1.2.1"⟩]⟩]
  routes := [⟨"0.0.0.0/0", "10.1.1.1"⟩]
  dns := []

theorem cmdAdd_podReply_faithful :
    ∃ printed, cmdAdd (answering podReply) podArgs = .ok printed ∧
      Faithful podReply printed := by
  have hwf : podReply.WellFormed := by
    constructor <;> decide +kernel
  have hhosts : ∀ iface ∈ podReply.interfaces, ∀ ip ∈ iface.ipAddresses,
      (cidrHost ip.address).all (fun host =>
        (parseCIDR ip.address).all fun n => ipEqual host n.ip) = true := by
    decide +kernel
  have htranslatable : podReply.Translatable := by
    refine ⟨by decide +kernel, fun iface hiface ip hip host n hhost hn => ?_,
      by decide +kernel, by decide +kernel⟩
    simpa [hhost, hn] using hhosts iface hiface ip hip
  exact (@cmdAdd_faithful_iff (answering podReply) podArgs
    ⟨"0.3.1", none, "localhost:9111"⟩ podReply rfl rfl rfl hwf).mpr
    htranslatable

/-- Both addresses are printed with the second interface, and the first one
as 10.1.1.0/24. -/
theorem cmdAdd_twoInterfaceReply_not_faithful : twoInterfaceReply.WellFormed ∧
      (cmdAdd (answering twoInterfaceReply) podArgs).toOption.map
        (fun printed => printed.ips.map fun c =>
          (c.interface, c.address.ip)) =
          some [(1, [10, 1, 1, 0]), (1, [10, 1, 2, 0])] ∧
      ¬ ∃ printed, cmdAdd (answering twoInterfaceReply) podArgs = .ok printed ∧
        Faithful twoInterfaceReply printed := by
  have hwf : twoInterfaceReply.WellFormed := by
    constructor <;> decide +kernel
  refine ⟨hwf, by decide +kernel, ?_⟩
  intro hfaithful
  have htranslatable : twoInterfaceReply.Translatable :=
    (processReply_faithful_iff hwf "0.3.1").mp hfaithful
  have hlast := htranslatable.lastOnly
  revert hlast
  decide +kernel

end ContivVPP.CNIPlugin
