import ContivVPP.IPAM
import ContivVPP.RunCondition

/-!
# The remote CNI server

For an Add request, the server takes an address for the pod, then configures
the connection of the container in a sequence of calls to other components,
and at the end registers the container.  A Delete request removes the
connection, the registration and at last the address.  Any of the calls may
fail, and ends the request; the address that an Add request has taken is not
given back then.
-/

namespace ContivVPP.CNIServer

open GoMap Ipam Net

/-! ## Requests -/

structure CNIRequest where
  containerId : String
  networkNamespace : String
  interfaceName : String
  extraArguments : String
  deriving DecidableEq, Repr

structure Interface where
  name : String
  sandbox : String
  address : String
  gateway : String
  deriving DecidableEq, Repr

structure CNIReply where
  result : ℕ
  error : String
  interfaces : List Interface
  routes : List (String × String)
  deriving DecidableEq, Repr

def resultOk : ℕ := 0
def resultErr : ℕ := 1

abbrev Response := Option CNIReply × Option String

def generateErrorResponse (err : String) : Response :=
  (some ⟨resultErr, err, [], []⟩, some err)

def linuxIfMaxLen : ℕ := 15
def afPacketNamePrefix : String := "afpacket"
def tapNamePrefix : String := "tap"
def podNameExtraArg : String := "K8S_POD_NAME"
def podNamespaceExtraArg : String := "K8S_POD_NAMESPACE"

def veth1NameFromRequest (request : CNIRequest) : String :=
  request.interfaceName ++ request.containerId

def veth2NameFromRequest (request : CNIRequest) : String :=
  String.ofList (request.containerId.toList.take linuxIfMaxLen)

def tapTmpHostNameFromRequest (request : CNIRequest) : String :=
  String.ofList (request.containerId.toList.take linuxIfMaxLen)

def afpacketNameFromRequest (request : CNIRequest) : String :=
  afPacketNamePrefix ++ veth2NameFromRequest request

def tapNameFromRequest (request : CNIRequest) : String :=
  tapNamePrefix ++ tapTmpHostNameFromRequest request

def loopbackNameFromRequest (request : CNIRequest) : String :=
  "loop" ++ veth2NameFromRequest request

def linuxInterfaceKey (name : String) : String :=
  "linux/config/v1/interface/" ++ name

def vppInterfaceKey (name : String) : String :=
  "vpp/config/v1/interface/" ++ name

/-- The arguments of the form `key=value`, separated by semicolons. -/
def parseExtraArgs (input : String) : AList fun _ : String => String :=
  (input.toList.splitOn ';').foldl (fun res pair =>
    match pair.splitOn '=' with
    | [key, value] => res.insert (String.ofList key) (String.ofList value)
    | _ => res) ∅

/-! ## Calls to other components -/

structure ServerConfig where
  useTAPInterfaces : Bool
  disableTCPstack : Bool
  tcpChecksumOffloadDisabled : Bool
  deriving DecidableEq, Repr

inductive External where
  | putInterfaces (names : List String)
  | deleteInterfaces (names : List String)
  | switchNamespace
  | renameInterface (name : String)
  | setInterfaceMac (name : String)
  | addInterfaceIP (name : String) (ip : IP)
  | lookupIdx (name : String)
  | getVppInterfaceDetails
  | setupStn (ip : IP)
  | addAppNamespace (containerId ifName : String)
  | putStaticRoute (dst outgoingInterface : String)
  | configureArpOnVpp (ip : IP)
  | configureArpInContainer
  | configureRoutesInContainer
  | fixPodToPodCommunication (ip : IP)
  | disableTCPChecksumOffload
  | persistPut (key : String)
  | persistDelete (key : String)
  deriving DecidableEq, Repr

/-- How the other components behave during a request: the error of each call
that fails, the data that others return, and the orders of loops over maps. -/
structure Environment where
  error : External → Option String
  vppIfName : String
  nsIndex : UInt32
  changesOrder : RangeOrder String
  poolOrder : RangeOrder (UInt32 × String)

def perform (env : Environment) : List External → Except String Unit
  | [] => .ok ()
  | call :: calls =>
      match env.error call with
      | some err => .error err
      | none => perform env calls

def vppIfNameFromRequest (cfg : ServerConfig) (request : CNIRequest) : String :=
  if cfg.useTAPInterfaces then tapNameFromRequest request
  else afpacketNameFromRequest request

def interfaceNames (cfg : ServerConfig) (request : CNIRequest) : List String :=
  if cfg.useTAPInterfaces then [tapNameFromRequest request]
  else [veth1NameFromRequest request, veth2NameFromRequest request,
    afpacketNameFromRequest request]

def persistedKeys (cfg : ServerConfig) (request : CNIRequest) : List String :=
  if cfg.useTAPInterfaces then [vppInterfaceKey (tapNameFromRequest request)]
  else [linuxInterfaceKey (veth1NameFromRequest request),
    linuxInterfaceKey (veth2NameFromRequest request),
    vppInterfaceKey (afpacketNameFromRequest request)]

/-- The calls of an Add request once it has an address.  The error of moving
the TAP interface into the namespace is ignored. -/
def addCalls (cfg : ServerConfig) (env : Environment) (request : CNIRequest)
    (podIP : IP) : List External :=
  let loopback := if cfg.disableTCPstack then []
    else [loopbackNameFromRequest request]
  let vppIf := vppIfNameFromRequest cfg request
  List.flatten [[.putInterfaces (interfaceNames cfg request ++ loopback)],
    if cfg.useTAPInterfaces then
      [.switchNamespace, .renameInterface request.interfaceName,
        .setInterfaceMac request.interfaceName,
        .addInterfaceIP request.interfaceName podIP]
    else [],
    [.lookupIdx vppIf, .getVppInterfaceDetails],
    if cfg.disableTCPstack then
      [.putStaticRoute (ipString podIP ++ "/32") vppIf]
    else
      [.setupStn podIP, .addAppNamespace request.containerId
        (loopbackNameFromRequest request)],
    [.configureArpOnVpp podIP, .configureArpInContainer,
      .configureRoutesInContainer],
    if cfg.disableTCPstack then [] else [.fixPodToPodCommunication podIP],
    if cfg.tcpChecksumOffloadDisabled then [.disableTCPChecksumOffload]
    else [],
    (env.changesOrder.order (persistedKeys cfg request)).map .persistPut]

/-- The calls of a Delete request.  The error of deleting the TAP interface in
the namespace is ignored. -/
def deleteCalls (cfg : ServerConfig) (request : CNIRequest) : List External :=
  List.flatten [[.deleteInterfaces (interfaceNames cfg request ++
      [loopbackNameFromRequest request])],
    if cfg.useTAPInterfaces then [.switchNamespace] else [],
    (persistedKeys cfg request).map .persistDelete]

/-! ## The server -/

structure ContainerConfig where
  podName : String
  podNamespace : String
  podVppIf : String
  nsIndex : UInt32
  deriving DecidableEq, Repr

structure Server where
  ipam : IPAM
  configuredContainers : AList fun _ : String => ContainerConfig

def containerConfig (cfg : ServerConfig) (env : Environment)
    (request : CNIRequest) : ContainerConfig :=
  let extraArgs := parseExtraArgs request.extraArguments
  { podName := (extraArgs.lookup podNameExtraArg).getD ""
    podNamespace := (extraArgs.lookup podNamespaceExtraArg).getD ""
    podVppIf := vppIfNameFromRequest cfg request
    nsIndex := if cfg.disableTCPstack then 0 else env.nsIndex }

def configureContainerConnectivity (cfg : ServerConfig) (env : Environment)
    (request : CNIRequest) (s : Server) : Response × Server :=
  match s.ipam.nextPodIP request.networkNamespace with
  | .error err =>
      ((none, some ("Can't get new IP address for pod: " ++ err)), s)
  | .ok (podIP, ipam) =>
      match perform env (addCalls cfg env request podIP) with
      | .error err => (generateErrorResponse err, { s with ipam := ipam })
      | .ok () =>
          let gateway := ipString ipam.podNetworkGatewayIP
          ((some ⟨resultOk, "", [⟨env.vppIfName, request.networkNamespace,
              ipString podIP ++ "/32", gateway⟩], [("0.0.0.0/0", gateway)]⟩,
            none),
            ⟨ipam, s.configuredContainers.insert request.containerId
              (containerConfig cfg env request)⟩)

def unconfigureContainerConnectivity (cfg : ServerConfig)
    (env : Environment) (request : CNIRequest) (s : Server) :
    Response × Server :=
  match perform env (deleteCalls cfg request) with
  | .error err => (generateErrorResponse err, s)
  | .ok () =>
      let containers := s.configuredContainers.erase request.containerId
      match s.ipam.releasePodIP env.poolOrder request.networkNamespace with
      | .error err => (generateErrorResponse err, ⟨s.ipam, containers⟩)
      | .ok ipam => ((some ⟨resultOk, "", [], []⟩, none), ⟨ipam, containers⟩)

inductive Request where
  | add (request : CNIRequest) (env : Environment)
  | delete (request : CNIRequest) (env : Environment)

def Request.message : Request → CNIRequest
  | .add request _ => request
  | .delete request _ => request

def step (cfg : ServerConfig) (s : Server) : Request → Server
  | .add request env => (configureContainerConnectivity cfg env request s).2
  | .delete request env =>
      (unconfigureContainerConnectivity cfg env request s).2

/-- The server starts with an IPAM that has assigned no address. -/
def run (cfg : ServerConfig) (ipam : IPAM) (requests : List Request) : Server :=
  requests.foldl (step cfg) ⟨{ ipam with assignedPodIPs := ∅ }, ∅⟩

theorem perform_eq_ok_iff {env : Environment} {calls : List External} :
    perform env calls = .ok () ↔ ∀ call ∈ calls, env.error call = none := by
  induction calls with
  | nil => simp [perform]
  | cons call calls ih =>
      rw [List.forall_mem_cons, ← ih, perform]
      cases env.error call with
      | none => simp
      | some err => simp

end ContivVPP.CNIServer
