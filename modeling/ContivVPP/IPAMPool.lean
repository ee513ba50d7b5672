import ContivVPP.IPAMSubnets

/-!
# The pool of pod addresses

Addresses are counted from the number of the pod network.  The network address
and the gateway are not for pods, every other address of the network is, and it
is given out again as soon as it has been released.  A new state has addresses
for pods, and places for the two ends of the connection to the host, if the
prefix lengths leave two bits; the constructor accepts longer ones too.
-/

namespace ContivVPP.Ipam

open ByteBits GoMap Net

/-! ## Counting from the number of a network -/

theorem uint32ToIpv4_injective : Function.Injective uint32ToIpv4 := by
  intro x y h
  have hx := ipv4ToUint32_uint32ToIpv4 x
  rw [h, ipv4ToUint32_uint32ToIpv4, Except.ok.injEq] at hx
  exact hx.symm

section Counting

variable {number : UInt32} {len : UInt8}

/-- An address that is counted from the number of a network is in the network
if the count fits the host bits.  Otherwise it is above the network or, with an
overflow, below it. -/
theorem Aligned.contains_add_iff (h : Aligned number len) (k : UInt32) :
    (numberNet number len).contains (uint32ToIpv4 (number + k)) = true ↔
      k.toNat < 2 ^ (32 - len.toNat) := by
  have hpos : 0 < 2 ^ (32 - len.toNat) := Nat.two_pow_pos _
  rw [numberNet_contains_iff h.le, norm_of_length_four rfl, uint32ToIpv4,
    value_uint32Bytes, UInt32.toNat_add]
  refine (and_iff_right rfl).trans ?_
  obtain ⟨q, hq⟩ := h.dvd
  have hquot : number.toNat / 2 ^ (32 - len.toNat) = q := by
    rw [hq, Nat.mul_div_cancel_left _ hpos]
  have hsum : (number.toNat + k.toNat) / 2 ^ (32 - len.toNat) =
      q + k.toNat / 2 ^ (32 - len.toNat) := by
    rw [hq, Nat.mul_add_div hpos]
  rw [hquot]
  constructor
  · intro heq
    by_contra hge
    have hone : 0 < k.toNat / 2 ^ (32 - len.toNat) :=
      Nat.div_pos (Nat.le_of_not_lt hge) hpos
    rcases Nat.lt_or_ge (number.toNat + k.toNat) (2 ^ 32) with hlt | hover
    · rw [Nat.mod_eq_of_lt hlt, hsum] at heq
      omega
    · have hk := k.toNat_lt
      have hnumber := number.toNat_lt
      have hmod : (number.toNat + k.toNat) % 2 ^ 32 =
          number.toNat + k.toNat - 2 ^ 32 := by
        rw [Nat.mod_eq_sub_mod hover, Nat.mod_eq_of_lt (by omega)]
      have hless : (number.toNat + k.toNat - 2 ^ 32) /
          2 ^ (32 - len.toNat) < q := by
        apply Nat.div_lt_of_lt_mul
        rw [← hq]
        omega
      rw [hmod] at heq
      omega
  · intro hlt
    rw [Nat.mod_eq_of_lt (h.add_lt hlt), hsum, Nat.div_eq_of_lt hlt, Nat.add_zero]

theorem toNat_ofNat_of_lt {j : ℕ} (hj : j < 2 ^ (32 - len.toNat)) :
    (UInt32.ofNat j).toNat = j :=
  UInt32.toNat_ofNat_of_lt' (hj.trans_le
    (Nat.pow_le_pow_right (by decide) (Nat.sub_le 32 len.toNat)))

end Counting

structure PodNetwork (number : UInt32) (len : UInt8) (i : IPAM) : Prop where
  aligned : Aligned number len
  network : i.podNetworkIPPrefix = numberNet number len
  gateway : i.podNetworkGatewayIP = uint32ToIpv4 (number + gatewayPodSeqID)

theorem exists_podNetwork {config : Config} {hostID : UInt8} {i : IPAM}
    (h : newIPAM hostID config = .ok i)
    (hlen : config.podNetworkPrefixLen ≤ 32) :
    ∃ number, PodNetwork number config.podNetworkPrefixLen i := by
  have hb := built_of_newIPAM h
  obtain ⟨pod, vSwitch, hc⟩ := exists_counted h
  obtain ⟨haligned, hnet, _⟩ := applyHostID_aligned
    (parseCIDR_block hb.podSubnet) hb.podSplits hlen hb.podNetwork hc.podNumber
  exact ⟨pod, haligned, hnet, hc.gateway⟩

/-! ## Assigning addresses -/

structure IPAM.Assignable (i : IPAM) (ip : UInt32) : Prop where
  network : i.podNetworkIPPrefix.contains (uint32ToIpv4 ip) = true
  ne_network : uint32ToIpv4 ip ≠ i.podNetworkIPPrefix.ip
  ne_gateway : uint32ToIpv4 ip ≠ i.podNetworkGatewayIP

section Pool

variable {number : UInt32} {len : UInt8} {i i' : IPAM} {podID : String}
  {ip : UInt32} (h : PodNetwork number len i)

include h

theorem PodNetwork.assignable_iff : i.Assignable ip ↔
    ∃ j, 2 ≤ j ∧ j < 2 ^ (32 - len.toNat) ∧ ip = number + UInt32.ofNat j := by
  have hsum : number + (ip - number) = ip := by
    rw [UInt32.add_comm, UInt32.sub_add_cancel]
  have hcontains := h.aligned.contains_add_iff (ip - number)
  rw [hsum, ← h.network] at hcontains
  have hnetwork : i.podNetworkIPPrefix.ip = uint32ToIpv4 number := by
    rw [h.network]
    rfl
  constructor
  · intro hip
    have hlt := hcontains.mp hip.network
    refine ⟨(ip - number).toNat, ?_, hlt, ?_⟩
    · by_contra hsmall
      have hcases : (ip - number).toNat = 0 ∨ (ip - number).toNat = 1 := by
        omega
      rcases hcases with hzero | hone
      · have hzero' : ip - number = 0 := UInt32.toNat_inj.mp hzero
        rw [hzero', UInt32.add_zero] at hsum
        exact hip.ne_network (by rw [hnetwork, hsum])
      · have hone' : ip - number = 1 := UInt32.toNat_inj.mp hone
        rw [hone'] at hsum
        exact hip.ne_gateway (by rw [h.gateway, gatewayPodSeqID, hsum])
    · rw [UInt32.ofNat_toNat, hsum]
  · rintro ⟨j, htwo, hlt, rfl⟩
    have hj := toNat_ofNat_of_lt hlt
    refine ⟨?_, ?_, ?_⟩
    · rw [h.network, h.aligned.contains_add_iff, hj]
      exact hlt
    · rw [hnetwork, uint32ToIpv4_injective.ne_iff]
      intro heq
      have hzero : UInt32.ofNat j = 0 := by
        simpa using heq
      rw [hzero] at hj
      have hzero' : (0 : UInt32).toNat = 0 := rfl
      omega
    · rw [h.gateway, uint32ToIpv4_injective.ne_iff]
      intro heq
      have hone : UInt32.ofNat j = 1 := by
        simpa [gatewayPodSeqID] using heq
      rw [hone] at hj
      have hone' : (1 : UInt32).toNat = 1 := rfl
      omega

theorem PodNetwork.ncard_assignable :
    {ip | i.Assignable ip}.ncard = 2 ^ (32 - len.toNat) - 2 := by
  have himage : {ip | i.Assignable ip} = (fun j => number + UInt32.ofNat j) ''
      (Finset.Ico 2 (2 ^ (32 - len.toNat)) : Set ℕ) := by
    ext ip
    rw [Set.mem_ofPred_eq, h.assignable_iff]
    simp [and_assoc, eq_comm]
  have hinj : Set.InjOn (fun j => number + UInt32.ofNat j)
      (Finset.Ico 2 (2 ^ (32 - len.toNat)) : Set ℕ) := by
    intro j hj k hk heq
    have hj' := (Finset.mem_Ico.mp hj).2
    have hk' := (Finset.mem_Ico.mp hk).2
    have hsame : UInt32.ofNat j = UInt32.ofNat k := by simpa using heq
    rw [← toNat_ofNat_of_lt hj', hsame, toNat_ofNat_of_lt hk']
  rw [himage, hinj.ncard_image, Set.ncard_coe_finset, Nat.card_Ico]

theorem PodNetwork.freeSeqID_eq : i.freeSeqID number =
    (List.range' 1 (2 ^ (32 - len.toNat) - 1)).find? fun j =>
      j ≠ 1 ∧ (i.assignedPodIPs.lookup (number + UInt32.ofNat j)).isNone := by
  rw [IPAM.freeSeqID, h.network, numberNet, maskSize_prefixMask h.aligned.le]
  simp only [Nat.shiftLeft_eq, Nat.one_mul]
  rfl

theorem PodNetwork.assignable_of_freeSeqID {j : ℕ}
    (hj : i.freeSeqID number = some j) :
    i.Assignable (number + UInt32.ofNat j) ∧
      i.assignedPodIPs.lookup (number + UInt32.ofNat j) = none := by
  rw [h.freeSeqID_eq] at hj
  have hmem := List.mem_range'_1.mp (List.mem_of_find?_eq_some hj)
  have hfound := List.find?_some hj
  have hfree := of_decide_eq_true hfound
  refine ⟨h.assignable_iff.mpr ⟨j, ?_, ?_, rfl⟩, Option.isNone_iff_eq_none.mp
    hfree.2⟩
  · have hne := hfree.1
    omega
  · omega

theorem PodNetwork.freeSeqID_eq_none_iff : i.freeSeqID number = none ↔
    ∀ ip, i.Assignable ip → (i.assignedPodIPs.lookup ip).isSome := by
  constructor
  · intro hnone ip hip
    obtain ⟨j, htwo, hlt, rfl⟩ := h.assignable_iff.mp hip
    rw [h.freeSeqID_eq, List.find?_eq_none] at hnone
    have hj := hnone j (List.mem_range'_1.mpr (by omega))
    by_contra hfree
    apply hj
    refine decide_eq_true ⟨by omega, ?_⟩
    rwa [Option.isNone_iff_eq_none, ← Option.not_isSome_iff_eq_none]
  · intro hheld
    cases hj : i.freeSeqID number with
    | none => rfl
    | some j =>
        obtain ⟨hip, hfree⟩ := h.assignable_of_freeSeqID hj
        have hsome := hheld _ hip
        rw [hfree] at hsome
        cases hsome

theorem PodNetwork.number_eq :
    ipv4ToUint32 i.podNetworkIPPrefix.ip = .ok number := by
  rw [h.network]
  exact ipv4ToUint32_uint32ToIpv4 number

theorem PodNetwork.nextPodIP_of_some (hne : podID ≠ "") {j : ℕ}
    (hj : i.freeSeqID number = some j) :
    i.nextPodIP podID = .ok (uint32ToIpv4 (number + UInt32.ofNat j),
      { i with assignedPodIPs :=
          i.assignedPodIPs.insert (number + UInt32.ofNat j) podID }) := by
  rw [IPAM.nextPodIP, if_neg (by simpa using hne), h.number_eq]
  simp only [bind, Except.bind, hj]
  rfl

theorem PodNetwork.nextPodIP_of_none (hne : podID ≠ "")
    (hnone : i.freeSeqID number = none) :
    ∃ err, i.nextPodIP podID = .error err := by
  rw [IPAM.nextPodIP, if_neg (by simpa using hne), h.number_eq]
  simp only [bind, Except.bind, hnone]
  exact ⟨_, rfl⟩

theorem PodNetwork.nextPodIP_fails_iff (hne : podID ≠ "") :
    (∃ err, i.nextPodIP podID = .error err) ↔
      ∀ ip, i.Assignable ip → (i.assignedPodIPs.lookup ip).isSome := by
  rw [← h.freeSeqID_eq_none_iff]
  refine ⟨?_, h.nextPodIP_of_none hne⟩
  rintro ⟨err, herr⟩
  cases hj : i.freeSeqID number with
  | none => rfl
  | some j =>
      rw [h.nextPodIP_of_some hne hj] at herr
      cases herr

theorem PodNetwork.exists_nextPodIP (hassigned : i.assignedPodIPs = ∅)
    (hlen : 2 < 2 ^ (32 - len.toNat)) (hne : podID ≠ "") :
    ∃ podIP i', i.nextPodIP podID = .ok (podIP, i') := by
  have hfirst : i.Assignable (number + UInt32.ofNat 2) :=
    h.assignable_iff.mpr ⟨2, Nat.le_refl 2, hlen, rfl⟩
  cases hj : i.freeSeqID number with
  | none =>
      have hheld := h.freeSeqID_eq_none_iff.mp hj _ hfirst
      rw [hassigned] at hheld
      cases hheld
  | some j => exact ⟨_, _, h.nextPodIP_of_some hne hj⟩

theorem PodNetwork.nextPodIP_eq_ok {podIP : IP}
    (hok : i.nextPodIP podID = .ok (podIP, i')) :
    podID ≠ "" ∧ ∃ ip, podIP = uint32ToIpv4 ip ∧ i.Assignable ip ∧
      i.assignedPodIPs.lookup ip = none ∧
      i' = { i with assignedPodIPs := i.assignedPodIPs.insert ip podID } := by
  have hne : podID ≠ "" := by
    rintro rfl
    cases hok
  refine ⟨hne, ?_⟩
  cases hj : i.freeSeqID number with
  | none =>
      obtain ⟨err, herr⟩ := h.nextPodIP_of_none hne hj
      rw [herr] at hok
      cases hok
  | some j =>
      rw [h.nextPodIP_of_some hne hj] at hok
      cases hok
      obtain ⟨hip, hfree⟩ := h.assignable_of_freeSeqID hj
      exact ⟨_, rfl, hip, hfree, rfl⟩

end Pool

/-! ## Usable states -/

/-- The networks of a new state have the addresses that the node needs. -/
structure Usable (config : Config) (i : IPAM) : Prop where
  podPrefixLen : config.podNetworkPrefixLen ≤ 32
  vSwitchPrefixLen : config.vSwitchNetworkPrefixLen ≤ 32
  gateway : i.podNetworkIPPrefix.contains i.podNetworkGatewayIP = true
  gateway_ne : i.podNetworkGatewayIP ≠ i.podNetworkIPPrefix.ip
  veth_ne : i.vethVPPEndIP ≠ i.vethHostEndIP
  vethVPPEnd : i.vSwitchNetworkIPPrefix.contains i.vethVPPEndIP = true
  vethVPPEnd_ne : i.vethVPPEndIP ≠ i.vSwitchNetworkIPPrefix.ip
  vethHostEnd : i.vSwitchNetworkIPPrefix.contains i.vethHostEndIP = true
  vethHostEnd_ne : i.vethHostEndIP ≠ i.vSwitchNetworkIPPrefix.ip
  assignable : ∀ podID, podID ≠ "" → ∃ podIP i',
    i.nextPodIP podID = .ok (podIP, i')
  podSubnet : ∀ x, i.podNetworkIPPrefix.contains x = true →
    i.podSubnetIPPrefix.contains x = true
  vSwitchSubnet : ∀ x, i.vSwitchNetworkIPPrefix.contains x = true →
    i.vSwitchSubnetIPPrefix.contains x = true

theorem lt_two_pow_iff {len : UInt8} (hlen : len ≤ 32) :
    2 < 2 ^ (32 - len.toNat) ↔ len ≤ 30 := by
  have hle : len.toNat ≤ 32 := UInt8.le_iff_toNat_le.mp hlen
  have hall : ∀ n ≤ 32, 2 < 2 ^ (32 - n) ↔ n ≤ 30 := by decide
  rw [UInt8.le_iff_toNat_le]
  exact hall _ hle

theorem Aligned.contains_one_iff {number : UInt32} {len : UInt8}
    (h : Aligned number len) : (numberNet number len).contains
      (uint32ToIpv4 (number + 1)) = true ↔ 1 < 2 ^ (32 - len.toNat) :=
  h.contains_add_iff 1

theorem Aligned.contains_two_iff {number : UInt32} {len : UInt8}
    (h : Aligned number len) : (numberNet number len).contains
      (uint32ToIpv4 (number + 2)) = true ↔ 2 < 2 ^ (32 - len.toNat) :=
  h.contains_add_iff 2

theorem uint32ToIpv4_add_ne {number k l : UInt32} (h : k ≠ l) :
    uint32ToIpv4 (number + k) ≠ uint32ToIpv4 (number + l) := by
  intro heq
  exact h (by simpa using uint32ToIpv4_injective heq)

theorem numberNet_ip (number : UInt32) (len : UInt8) :
    (numberNet number len).ip = uint32ToIpv4 (number + 0) := by
  rw [UInt32.add_zero]
  rfl

/-- Of the states that the constructor returns, those are usable whose networks
have at least two host bits. -/
theorem usable_iff {config : Config} {hostID : UInt8} {i : IPAM}
    (h : newIPAM hostID config = .ok i) :
    Usable config i ↔ config.podNetworkPrefixLen ≤ 30 ∧
      config.vSwitchNetworkPrefixLen ≤ 30 := by
  have hb := built_of_newIPAM h
  obtain ⟨pod, vSwitch, hc⟩ := exists_counted h
  have hnetworks : config.podNetworkPrefixLen ≤ 32 →
      config.vSwitchNetworkPrefixLen ≤ 32 →
      (PodNetwork pod config.podNetworkPrefixLen i ∧
        ∀ x, i.podNetworkIPPrefix.contains x = true →
          i.podSubnetIPPrefix.contains x = true) ∧
      Aligned vSwitch config.vSwitchNetworkPrefixLen ∧
      i.vSwitchNetworkIPPrefix =
        numberNet vSwitch config.vSwitchNetworkPrefixLen ∧
      ∀ x, i.vSwitchNetworkIPPrefix.contains x = true →
        i.vSwitchSubnetIPPrefix.contains x = true := by
    intro hpod hvSwitch
    obtain ⟨haligned, hnet, hinside⟩ := applyHostID_aligned
      (parseCIDR_block hb.podSubnet) hb.podSplits hpod hb.podNetwork
      hc.podNumber
    exact ⟨⟨⟨haligned, hnet, hc.gateway⟩, hinside⟩, applyHostID_aligned
      (parseCIDR_block hb.vSwitchSubnet) hb.vSwitchSplits hvSwitch
      hb.vSwitchNetwork hc.vSwitchNumber⟩
  constructor
  · intro husable
    obtain ⟨⟨hpool, _⟩, haligned, hnet, _⟩ :=
      hnetworks husable.podPrefixLen husable.vSwitchPrefixLen
    refine ⟨?_, ?_⟩
    · obtain ⟨podIP, i', hok⟩ := husable.assignable "pod" (by decide)
      obtain ⟨_, ip, _, hip, _⟩ := hpool.nextPodIP_eq_ok hok
      obtain ⟨j, htwo, hlt, _⟩ := hpool.assignable_iff.mp hip
      exact (lt_two_pow_iff husable.podPrefixLen).mp (Nat.lt_of_le_of_lt htwo hlt)
    · have hend := husable.vethHostEnd
      rw [hc.vethHostEnd, hnet] at hend
      exact (lt_two_pow_iff husable.vSwitchPrefixLen).mp
        (haligned.contains_two_iff.mp hend)
  · rintro ⟨hpod, hvSwitch⟩
    have hpod32 : config.podNetworkPrefixLen ≤ 32 :=
      UInt8.le_trans hpod (by decide)
    have hvSwitch32 : config.vSwitchNetworkPrefixLen ≤ 32 :=
      UInt8.le_trans hvSwitch (by decide)
    obtain ⟨⟨hpool, hinside⟩, haligned, hnet, hinside'⟩ :=
      hnetworks hpod32 hvSwitch32
    have htwo := (lt_two_pow_iff hpod32).mpr hpod
    have htwo' := (lt_two_pow_iff hvSwitch32).mpr hvSwitch
    refine ⟨hpod32, hvSwitch32, ?_, ?_, ?_, ?_, ?_, ?_, ?_, ?_, hinside, hinside'⟩
    · rw [hc.gateway, hpool.network]
      exact hpool.aligned.contains_one_iff.mpr (by omega)
    · rw [hc.gateway, hpool.network, numberNet_ip]
      exact uint32ToIpv4_add_ne (by decide)
    · rw [hc.vethVPPEnd, hc.vethHostEnd]
      exact uint32ToIpv4_add_ne (by decide)
    · rw [hc.vethVPPEnd, hnet]
      exact haligned.contains_one_iff.mpr (by omega)
    · rw [hc.vethVPPEnd, hnet, numberNet_ip]
      exact uint32ToIpv4_add_ne (by decide)
    · rw [hc.vethHostEnd, hnet]
      exact haligned.contains_two_iff.mpr htwo'
    · rw [hc.vethHostEnd, hnet, numberNet_ip]
      exact uint32ToIpv4_add_ne (by decide)
    · exact fun podID hpodID =>
        hpool.exists_nextPodIP hb.assigned htwo hpodID

/-- The default configuration is usable. -/
theorem usable_iff_defaultConfig : Usable defaultConfig defaultIPAM :=
  (usable_iff newIPAM_defaultConfig).mpr ⟨by decide, by decide⟩

/-- The default configuration with pod networks of a prefix that is longer than
an address. -/
def longPrefixConfig : Config :=
  { defaultConfig with podNetworkPrefixLen := 33 }

/-- The mask has no ones at all. -/
theorem not_usable_of_longPrefix : ∃ i, newIPAM 1 longPrefixConfig = .ok i ∧
      i.podNetworkIPPrefix = ⟨[10, 1, 0, 0], [0, 0, 0, 0]⟩ ∧
      ¬ Usable longPrefixConfig i :=
  ⟨_, rfl, rfl, fun husable => absurd husable.podPrefixLen (by decide)⟩

/-! ## Runs -/

/-- Calls for pods.  The map of assigned addresses may be searched in any
order. -/
inductive PoolCall where
  | nextPodIP (podID : String)
  | releasePodIP (order : RangeOrder (UInt32 × String)) (podID : String)

def PoolCall.apply (i : IPAM) : PoolCall → IPAM
  | .nextPodIP podID =>
      match i.nextPodIP podID with
      | .ok (_, i') => i'
      | .error _ => i
  | .releasePodIP order podID =>
      match i.releasePodIP order podID with
      | .ok i' => i'
      | .error _ => i

structure Pool (number : UInt32) (len : UInt8) (i : IPAM) : Prop
    extends PodNetwork number len i where
  held : ∀ ip, (i.assignedPodIPs.lookup ip).isSome → i.Assignable ip

section Runs

variable {number : UInt32} {len : UInt8} {i i' : IPAM} {podID : String}
  {ip : UInt32} {order : RangeOrder (UInt32 × String)}

theorem releasePodIP_fails_iff (hne : podID ≠ "") :
    (∃ err, i.releasePodIP order podID = .error err) ↔
      ∀ ip, i.assignedPodIPs.lookup ip ≠ some podID := by
  rw [IPAM.releasePodIP, if_neg (by simpa using hne)]
  cases hfind : i.findIP order podID with
  | error err => simpa using findIP_eq_error hfind
  | ok ip => simpa using ⟨ip, findIP_eq_ok hfind⟩

theorem releasePodIP_eq_ok (hne : podID ≠ "")
    (hok : i.releasePodIP order podID = .ok i') :
    ∃ ip, i.assignedPodIPs.lookup ip = some podID ∧
      i' = { i with assignedPodIPs := i.assignedPodIPs.erase ip } := by
  rw [IPAM.releasePodIP, if_neg (by simpa using hne)] at hok
  cases hfind : i.findIP order podID with
  | error err =>
      rw [hfind] at hok
      cases hok
  | ok ip =>
      rw [hfind] at hok
      exact ⟨ip, findIP_eq_ok hfind, (Except.ok.inj hok).symm⟩

theorem releasePodIP_empty : i.releasePodIP order "" = .ok i := rfl

theorem Pool.insert (h : Pool number len i) (hip : i.Assignable ip) :
    Pool number len
      { i with assignedPodIPs := i.assignedPodIPs.insert ip podID } := by
  refine ⟨⟨h.aligned, h.network, h.gateway⟩, fun ip' hheld => ?_⟩
  have hip' : i.Assignable ip' := by
    by_cases heq : ip' = ip
    · rw [heq]
      exact hip
    · change (AList.lookup ip' (i.assignedPodIPs.insert ip podID)).isSome =
        true at hheld
      rw [AList.lookup_insert_ne heq] at hheld
      exact h.held ip' hheld
  exact ⟨hip'.network, hip'.ne_network, hip'.ne_gateway⟩

theorem Pool.erase (h : Pool number len i) : Pool number len
      { i with assignedPodIPs := i.assignedPodIPs.erase ip } := by
  refine ⟨⟨h.aligned, h.network, h.gateway⟩, fun ip' hheld => ?_⟩
  have hip' : i.Assignable ip' := by
    apply h.held
    change (AList.lookup ip' (i.assignedPodIPs.erase ip)).isSome = true at hheld
    by_cases heq : ip' = ip
    · rw [heq, AList.lookup_erase] at hheld
      cases hheld
    · rwa [AList.lookup_erase_ne heq] at hheld
  exact ⟨hip'.network, hip'.ne_network, hip'.ne_gateway⟩

theorem Pool.apply (h : Pool number len i) (call : PoolCall) :
    Pool number len (call.apply i) := by
  cases call with
  | nextPodIP podID =>
      rw [PoolCall.apply]
      split
      · next podIP i' hok =>
          obtain ⟨_, ip, _, hip, _, rfl⟩ := h.nextPodIP_eq_ok hok
          exact h.insert hip
      · exact h
  | releasePodIP order podID =>
      rw [PoolCall.apply]
      split
      · next i' hok =>
          by_cases hne : podID = ""
          · rw [hne, releasePodIP_empty] at hok
            cases hok
            exact h
          · obtain ⟨ip, _, rfl⟩ := releasePodIP_eq_ok hne hok
            exact h.erase
      · exact h

theorem Pool.run (h : Pool number len i) (calls : List PoolCall) :
    Pool number len (calls.foldl PoolCall.apply i) :=
  List.foldlRecOn (motive := fun i => Pool number len i) calls _ h
    fun _ h call _ => h.apply call

end Runs

/-- After any calls, an address is given out if one is free, it is free and for
pods, and a release frees one address of the pod. -/
theorem pool_run {config : Config} {hostID : UInt8} {i : IPAM}
    (hnew : newIPAM hostID config = .ok i)
    (hlen : config.podNetworkPrefixLen ≤ 31) (calls : List PoolCall) :
    let pool := calls.foldl PoolCall.apply i
    {ip | pool.Assignable ip}.ncard =
      2 ^ (32 - config.podNetworkPrefixLen.toNat) - 2 ∧
    (∀ podID podIP pool', pool.nextPodIP podID = .ok (podIP, pool') →
      ∃ ip, podIP = uint32ToIpv4 ip ∧ pool.Assignable ip ∧
        pool.assignedPodIPs.lookup ip = none ∧
        pool' = { pool with
          assignedPodIPs := pool.assignedPodIPs.insert ip podID }) ∧
    (∀ podID, podID ≠ "" → ((∃ err, pool.nextPodIP podID = .error err) ↔
      ∀ ip, pool.Assignable ip → (pool.assignedPodIPs.lookup ip).isSome)) ∧
    (∀ order podID, podID ≠ "" →
      ((∃ err, pool.releasePodIP order podID = .error err) ↔
        ∀ ip, pool.assignedPodIPs.lookup ip ≠ some podID) ∧
      ∀ pool', pool.releasePodIP order podID = .ok pool' →
        ∃ ip, pool.assignedPodIPs.lookup ip = some podID ∧ pool' = { pool with
            assignedPodIPs := pool.assignedPodIPs.erase ip } ∧
          pool'.Assignable ip ∧ pool'.assignedPodIPs.lookup ip = none) ∧
    (∀ order, pool.releasePodIP order "" = .ok pool) ∧
    (∀ podID err, pool.nextPodIP podID = .error err →
      (PoolCall.nextPodIP podID).apply pool = pool) ∧
    ∀ order podID err, pool.releasePodIP order podID = .error err →
      (PoolCall.releasePodIP order podID).apply pool = pool := by
  obtain ⟨number, hnetwork⟩ :=
    exists_podNetwork hnew (UInt8.le_trans hlen (by decide))
  have hinit : Pool number config.podNetworkPrefixLen i := by
    refine ⟨hnetwork, fun ip hheld => ?_⟩
    rw [(built_of_newIPAM hnew).assigned] at hheld
    cases hheld
  intro pool
  have hpool : Pool number config.podNetworkPrefixLen pool := hinit.run calls
  refine ⟨hpool.ncard_assignable, ?_, fun podID => hpool.nextPodIP_fails_iff,
    ?_, fun order => releasePodIP_empty, ?_, ?_⟩
  · intro podID podIP pool' hok
    exact (hpool.nextPodIP_eq_ok hok).2
  · intro order podID hne
    refine ⟨releasePodIP_fails_iff hne, fun pool' hok => ?_⟩
    obtain ⟨ip, hheld, rfl⟩ := releasePodIP_eq_ok hne hok
    have hip := hpool.held ip (by rw [hheld]; rfl)
    exact ⟨ip, hheld, rfl, ⟨hip.network, hip.ne_network, hip.ne_gateway⟩,
      AList.lookup_erase _ _⟩
  · intro podID err herr
    rw [PoolCall.apply, herr]
  · intro order podID err herr
    rw [PoolCall.apply, herr]

/-- One pod has taken two addresses of the default network. -/
theorem pool_run_defaultConfig :
    let pool := [PoolCall.nextPodIP "pod", .nextPodIP "pod"].foldl
      PoolCall.apply defaultIPAM
    {ip | pool.Assignable ip}.ncard = 254 ∧
      ∃ pool', pool.releasePodIP .insertion "pod" = .ok pool' ∧
        ∃ ip, pool.assignedPodIPs.lookup ip = some "pod" ∧
          pool'.assignedPodIPs.lookup ip = none := by
  intro pool
  obtain ⟨hcard, _, _, hrelease, _⟩ := pool_run newIPAM_defaultConfig
    (by decide) [PoolCall.nextPodIP "pod", .nextPodIP "pod"]
  obtain ⟨hfails, hfrees⟩ := hrelease .insertion "pod" (by decide)
  refine ⟨hcard, ?_⟩
  cases hresult : pool.releasePodIP .insertion "pod" with
  | error err =>
      have hheld : pool.assignedPodIPs.lookup 0x0a010102 = some "pod" := by
        decide +kernel
      exact absurd hheld (hfails.mp ⟨err, hresult⟩ _)
  | ok pool' =>
      obtain ⟨ip, hheld, _, _, hfree⟩ := hfrees pool' hresult
      exact ⟨pool', rfl, ip, hheld, hfree⟩

end ContivVPP.Ipam
