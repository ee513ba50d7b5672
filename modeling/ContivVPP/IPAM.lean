import ContivVPP.GoMap
import ContivVPP.NetText

/-!
# Address management of a node

The configuration gives one subnet for all pods and one for all connections
between a vswitch and its host.  Each node takes a network inside each of
them: its host ID, trimmed to the bits between the two prefix lengths, follows
the bits of the subnet.  Addresses for pods are taken from the pod network in
increasing order.
-/

namespace ContivVPP.Ipam

open GoMap Net

/-! ## Numbers for addresses -/

def shl8 (x : UInt8) (k : ℕ) : UInt8 := UInt8.ofNat (x.toNat <<< k)

def shl32 (x : UInt32) (k : ℕ) : UInt32 := UInt32.ofNat (x.toNat <<< k)

def ipv4ToUint32 (ip : IP) : Except String UInt32 :=
  match to4 ip with
  | none =>
      .error ("Ip address " ++ ipString [] ++
        " is not ipv4 address (or ipv6 convertible to ipv4 address)")
  | some ip => .ok (ip.foldl (fun tmp b => shl32 tmp 8 + b.toUInt32) 0)

def uint32Bytes (ip : UInt32) : List UInt8 :=
  [(ip >>> 24).toUInt8, (ip >>> 16).toUInt8, (ip >>> 8).toUInt8, ip.toUInt8]

def uint32ToIpv4 (ip : UInt32) : IP := uint32Bytes ip

def uint32ToIpv4Mask (ip : UInt32) : IPMask := uint32Bytes ip

def prefixMask (len : UInt8) : IPMask :=
  uint32ToIpv4Mask (shl32 (shl32 1 len.toNat - 1) (32 - len).toNat)

def convertToHostIPPart (hostID expectedHostPartBitSize : UInt8) : UInt8 :=
  hostID &&& (shl8 1 expectedHostPartBitSize.toNat - 1)

/-! ## Networks of a node -/

structure Config where
  podSubnetCIDR : String
  podNetworkPrefixLen : UInt8
  vSwitchSubnetCIDR : String
  vSwitchNetworkPrefixLen : UInt8
  hostNodeSubnetCidr : String
  deriving DecidableEq, Repr

def subnetPrefixLen (n : IPNet) : UInt8 :=
  UInt8.ofNat (maskSize n.mask).1

/-- The prefix of a network: the subnet with the host ID added to it. -/
def applyHostID (subnetIPPrefix : IPNet) (hostID networkPrefixLen : UInt8) :
    Except String IPNet := do
  let hostPartBitSize := networkPrefixLen - subnetPrefixLen subnetIPPrefix
  let hostIPPart := convertToHostIPPart hostID hostPartBitSize
  let subnetIPPartUint32 ← ipv4ToUint32 subnetIPPrefix.ip
  let networkPrefixUint32 := subnetIPPartUint32 +
    shl32 hostIPPart.toUInt32 (32 - networkPrefixLen).toNat
  return ⟨uint32ToIpv4 networkPrefixUint32, prefixMask networkPrefixLen⟩

def errParseCIDR (text : String) : String :=
  "invalid CIDR address: " ++ text

def convertConfigNotation (subnetCIDR : String)
    (networkPrefixLen hostID : UInt8) : Except String (IPNet × IPNet) :=
  match parseCIDR subnetCIDR with
  | none =>
      .error ("Can't parse SubnetCIDR \"" ++ subnetCIDR ++ "\" : " ++
        errParseCIDR subnetCIDR)
  | some subnetIPPrefix =>
      if networkPrefixLen ≤ subnetPrefixLen subnetIPPrefix then
        .error ("Network prefix length (" ++
          toString networkPrefixLen.toNat ++
          ") must be higher than subnet prefix length (" ++
          toString (maskSize subnetIPPrefix.mask).1 ++ ") ")
      else do
        let networkIPPrefix ← applyHostID subnetIPPrefix hostID networkPrefixLen
        return (subnetIPPrefix, networkIPPrefix)

def gatewayPodSeqID : UInt32 := 1
def vethVPPEndIPHostSeqID : UInt32 := 1
def vethHostEndIPHostSeqID : UInt32 := 2

/-- The state of the module.  The assigned addresses are a map from numbers
to pod IDs. -/
structure IPAM where
  hostID : UInt8
  podSubnetIPPrefix : IPNet
  podNetworkIPPrefix : IPNet
  podNetworkGatewayIP : IP
  assignedPodIPs : AList fun _ : UInt32 => String
  vSwitchSubnetIPPrefix : IPNet
  vSwitchNetworkIPPrefix : IPNet
  vethVPPEndIP : IP
  vethHostEndIP : IP
  hostNodeNetworkIPPrefix : IPNet

def newIPAM (hostID : UInt8) (config : Config) : Except String IPAM := do
  let (podSubnet, podNetwork) ← convertConfigNotation config.podSubnetCIDR
    config.podNetworkPrefixLen hostID
  let podNetworkPrefixUint32 ← ipv4ToUint32 podNetwork.ip
  let (vSwitchSubnet, vSwitchNetwork) ← convertConfigNotation
    config.vSwitchSubnetCIDR config.vSwitchNetworkPrefixLen hostID
  let vSwitchNetworkPrefixUint32 ← ipv4ToUint32 vSwitchNetwork.ip
  match parseCIDR config.hostNodeSubnetCidr with
  | none => throw (errParseCIDR config.hostNodeSubnetCidr)
  | some hostNodeNetwork =>
      return {
        hostID := hostID
        podSubnetIPPrefix := podSubnet
        podNetworkIPPrefix := podNetwork
        podNetworkGatewayIP :=
          uint32ToIpv4 (podNetworkPrefixUint32 + gatewayPodSeqID)
        assignedPodIPs := ∅
        vSwitchSubnetIPPrefix := vSwitchSubnet
        vSwitchNetworkIPPrefix := vSwitchNetwork
        vethVPPEndIP :=
          uint32ToIpv4 (vSwitchNetworkPrefixUint32 + vethVPPEndIPHostSeqID)
        vethHostEndIP :=
          uint32ToIpv4 (vSwitchNetworkPrefixUint32 + vethHostEndIPHostSeqID)
        hostNodeNetworkIPPrefix := hostNodeNetwork }

/-! ## Networks of other nodes -/

/-- The body of `OtherHostPodNetwork` and `OtherHostVSwitchNetwork`. -/
def otherHostNetwork (subnet network : IPNet) (hostID : UInt8) :
    Except String IPNet :=
  applyHostID subnet hostID (subnetPrefixLen network)

def IPAM.otherHostPodNetwork (i : IPAM) (hostID : UInt8) : Except String IPNet :=
  otherHostNetwork i.podSubnetIPPrefix i.podNetworkIPPrefix hostID

def IPAM.otherHostVSwitchNetwork (i : IPAM) (hostID : UInt8) :
    Except String IPNet :=
  otherHostNetwork i.vSwitchSubnetIPPrefix i.vSwitchNetworkIPPrefix hostID

def IPAM.hostIPAddress (i : IPAM) (hostID : UInt8) : Except String IP := do
  let hostPartBitSize := 32 - subnetPrefixLen i.hostNodeNetworkIPPrefix
  let hostIPPart := convertToHostIPPart hostID hostPartBitSize
  let networkIPPartUint32 ← ipv4ToUint32 i.hostNodeNetworkIPPrefix.ip
  return uint32ToIpv4 (networkIPPartUint32 + hostIPPart.toUInt32)

/-! ## Addresses of pods -/

def IPAM.freeSeqID (i : IPAM) (networkPrefix : UInt32) : Option ℕ :=
  let (prefixBits, totalBits) := maskSize i.podNetworkIPPrefix.mask
  let maxSeqID := 1 <<< (totalBits - prefixBits)
  (List.range' 1 (maxSeqID - 1)).find? fun j =>
    j ≠ gatewayPodSeqID.toNat ∧
      (i.assignedPodIPs.lookup (networkPrefix + UInt32.ofNat j)).isNone

def IPAM.nextPodIP (i : IPAM) (podID : String) : Except String (IP × IPAM) :=
  if podID.isEmpty then
    .error ("Pod ID can't be empty because it is used to release the " ++
      "assigned IP address")
  else do
    let networkPrefix ← ipv4ToUint32 i.podNetworkIPPrefix.ip
    match i.freeSeqID networkPrefix with
    | some j =>
        let ip := networkPrefix + UInt32.ofNat j
        return (uint32ToIpv4 ip,
          { i with assignedPodIPs := i.assignedPodIPs.insert ip podID })
    | none =>
        throw ("No IP address is free for assignment. All IP addresses " ++
          "for pod network \x7b" ++ ipString i.podNetworkIPPrefix.ip ++ " " ++
          hexString i.podNetworkIPPrefix.mask ++ "\x7d are already assigned")

def IPAM.findIP (i : IPAM) (order : RangeOrder (UInt32 × String))
    (podID : String) : Except String UInt32 :=
  match (range order i.assignedPodIPs).find? (fun e => e.2 = podID) with
  | some e => .ok e.1
  | none =>
      .error ("Can't find assigned pod IP address for pod ID \"" ++ podID ++
        "\"")

def IPAM.releasePodIP (i : IPAM) (order : RangeOrder (UInt32 × String))
    (podID : String) : Except String IPAM :=
  if podID.isEmpty then .ok i
  else
    match i.findIP order podID with
    | .error err => .error ("Can't release pod IP: " ++ err)
    | .ok ip =>
        .ok { i with assignedPodIPs := i.assignedPodIPs.erase ip }

theorem nextPodIP_eq_ok {i i' : IPAM} {podID : String} {podIP : IP}
    (h : i.nextPodIP podID = .ok (podIP, i')) :
    podID ≠ "" ∧ ∃ ip, i.assignedPodIPs.lookup ip = none ∧
      i' = { i with assignedPodIPs := i.assignedPodIPs.insert ip podID } := by
  unfold IPAM.nextPodIP at h
  split_ifs at h with hempty
  refine ⟨by simpa using hempty, ?_⟩
  cases hs : ipv4ToUint32 i.podNetworkIPPrefix.ip with
  | error err =>
      rw [hs] at h
      cases h
  | ok s =>
      rw [hs] at h
      simp only [bind, Except.bind] at h
      split at h
      · next j hfree =>
          simp only [pure, Except.pure, Except.ok.injEq, Prod.mk.injEq] at h
          refine ⟨s + UInt32.ofNat j, ?_, h.2.symm⟩
          unfold IPAM.freeSeqID at hfree
          have hj := List.find?_some hfree
          simpa using (of_decide_eq_true hj).2
      · cases h

theorem findIP_eq_ok {i : IPAM} {order : RangeOrder (UInt32 × String)}
    {podID : String} {ip : UInt32} (h : i.findIP order podID = .ok ip) :
    i.assignedPodIPs.lookup ip = some podID := by
  unfold IPAM.findIP at h
  split at h
  · next e hfind =>
      have hmem := List.mem_of_find?_eq_some hfind
      have hpod : e.2 = podID := by
        simpa using List.find?_some hfind
      rw [Except.ok.injEq] at h
      rw [← h, ← hpod]
      exact mem_range.mp hmem
  · cases h

theorem findIP_eq_error {i : IPAM} {order : RangeOrder (UInt32 × String)}
    {podID err : String} (h : i.findIP order podID = .error err)
    (ip : UInt32) : i.assignedPodIPs.lookup ip ≠ some podID := by
  unfold IPAM.findIP at h
  split at h
  · cases h
  · next hfind =>
      rw [List.find?_eq_none] at hfind
      intro hlookup
      exact hfind (ip, podID) (mem_range.mpr hlookup) (by simp)

/-! ## The default configuration -/

def defaultConfig : Config where
  podSubnetCIDR := "10.1.0.0/16"
  podNetworkPrefixLen := 24
  vSwitchSubnetCIDR := "172.30.0.0/16"
  vSwitchNetworkPrefixLen := 24
  hostNodeSubnetCidr := "192.168.16.0/24"

def defaultIPAM : IPAM where
  hostID := 1
  podSubnetIPPrefix := ⟨[10, 1, 0, 0], [255, 255, 0, 0]⟩
  podNetworkIPPrefix := ⟨[10, 1, 1, 0], [255, 255, 255, 0]⟩
  podNetworkGatewayIP := [10, 1, 1, 1]
  assignedPodIPs := ∅
  vSwitchSubnetIPPrefix := ⟨[172, 30, 0, 0], [255, 255, 0, 0]⟩
  vSwitchNetworkIPPrefix := ⟨[172, 30, 1, 0], [255, 255, 255, 0]⟩
  vethVPPEndIP := [172, 30, 1, 1]
  vethHostEndIP := [172, 30, 1, 2]
  hostNodeNetworkIPPrefix := ⟨[192, 168, 16, 0], [255, 255, 255, 0]⟩

theorem newIPAM_defaultConfig :
    newIPAM 1 defaultConfig = .ok defaultIPAM := by rfl

end ContivVPP.Ipam
