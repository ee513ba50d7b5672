import ContivVPP.IPAMNetworks

/-!
# Networks inside of their subnets

The network of a host ID is the block of the subnet that the ID numbers.  So it
stays inside of the subnet, its host bits are zero, and the addresses that are
counted from its number are in it as long as the count fits the host bits.
All nodes compute the same networks.
-/

namespace ContivVPP.Ipam

open ByteBits Net

/-! ## Blocks of numbers -/

theorem ipv4ToUint32_uint32ToIpv4 (x : UInt32) :
    ipv4ToUint32 (uint32ToIpv4 x) = .ok x := by
  have hlt := x.toNat_lt
  rw [ipv4ToUint32, to4_of_length_four rfl]
  refine congrArg Except.ok (UInt32.toNat_inj.mp ?_)
  simp [uint32ToIpv4, uint32Bytes, toNat_shl32, Nat.shiftRight_eq_div_pow]
  omega

theorem exists_uint32ToIpv4 {ip : IP} (h : ip.length = 4) :
    ∃ x, ip = uint32ToIpv4 x := by
  obtain ⟨a, b, c, d, rfl⟩ : ∃ a b c d, ip = [a, b, c, d] := by
    match ip, h with
    | [a, b, c, d], _ => exact ⟨a, b, c, d, rfl⟩
  have hlt : value (bits [a, b, c, d]) < 2 ^ 32 := by
    rw [value_bits_four]
    have ha := a.toNat_lt
    have hb := b.toNat_lt
    have hc := c.toNat_lt
    have hd := d.toNat_lt
    omega
  refine ⟨UInt32.ofNat (value (bits [a, b, c, d])), ?_⟩
  apply bits_injective
  rw [← value_inj (by simp [uint32ToIpv4, uint32Bytes]), uint32ToIpv4,
    value_uint32Bytes, UInt32.toNat_ofNat_of_lt' hlt]

structure Aligned (number : UInt32) (len : UInt8) : Prop where
  le : len ≤ 32
  dvd : 2 ^ (32 - len.toNat) ∣ number.toNat

section Aligned

variable {number : UInt32} {len : UInt8}

theorem Aligned.toNat_le (h : Aligned number len) : len.toNat ≤ 32 :=
  UInt8.le_iff_toNat_le.mp h.le

theorem two_pow_split (hlen : len.toNat ≤ 32) :
    2 ^ (32 - len.toNat) * 2 ^ len.toNat = 2 ^ 32 := by
  rw [← Nat.pow_add, Nat.sub_add_cancel hlen]

theorem Aligned.add_lt (h : Aligned number len) {k : ℕ}
    (hk : k < 2 ^ (32 - len.toNat)) : number.toNat + k < 2 ^ 32 := by
  obtain ⟨q, hq⟩ := h.dvd
  have hlt := number.toNat_lt
  rw [hq, ← two_pow_split h.toNat_le] at hlt
  have hq' : q + 1 ≤ 2 ^ len.toNat :=
    Nat.lt_of_mul_lt_mul_left hlt
  calc number.toNat + k < number.toNat + 2 ^ (32 - len.toNat) := by omega
    _ = 2 ^ (32 - len.toNat) * (q + 1) := by rw [hq, Nat.mul_add, Nat.mul_one]
    _ ≤ 2 ^ (32 - len.toNat) * 2 ^ len.toNat := Nat.mul_le_mul_left _ hq'
    _ = 2 ^ 32 := two_pow_split h.toNat_le

theorem maskSize_prefixMask (h : len ≤ 32) :
    maskSize (prefixMask len) = (len.toNat, 32) := by
  rw [prefixMask_eq h, maskSize_onesMask (UInt8.le_iff_toNat_le.mp h)]

theorem subnetPrefixLen_numberNet (h : len ≤ 32) :
    subnetPrefixLen (numberNet number len) = len := by
  rw [subnetPrefixLen, numberNet, maskSize_prefixMask h, UInt8.ofNat_toNat]

theorem Aligned.block (h : Aligned number len) :
    (numberNet number len).Block := by
  have hpre : (numberNet number len).prefixLen = len.toNat := by
    rw [IPNet.prefixLen, numberNet, maskSize_prefixMask h.le]
  refine ⟨Or.inl rfl, ?_, ?_, ?_⟩
  · rw [hpre]
    exact h.toNat_le
  · rw [hpre]
    exact prefixMask_eq h.le
  · change land (uint32Bytes number) (prefixMask len) = uint32Bytes number
    rw [prefixMask_eq h.le]
    apply (@land_onesMask_eq_self_iff (uint32Bytes number) len.toNat
      h.toNat_le).mpr
    rw [value_uint32Bytes]
    exact h.dvd

end Aligned

theorem exists_numberNet {n : IPNet} (h : n.Block) (h4 : n.ip.length = 4) :
    ∃ number, n = numberNet number (subnetPrefixLen n) ∧
      Aligned number (subnetPrefixLen n) := by
  have hle := h.prefixLen_le
  have hmask := h.mask_eq
  have hhost := h.hostZero
  rw [h4] at hle hmask
  have hlen : (subnetPrefixLen n).toNat = n.prefixLen :=
    UInt8.toNat_ofNat_of_lt' (Nat.lt_of_le_of_lt hle (by decide))
  have hlen32 : subnetPrefixLen n ≤ 32 := by
    rw [UInt8.le_iff_toNat_le, hlen]
    exact hle
  obtain ⟨number, hip⟩ := exists_uint32ToIpv4 h4
  refine ⟨number, ?_, hlen32, ?_⟩
  · rw [numberNet, prefixMask_eq hlen32, hlen, ← hmask, ← hip]
  · have hself : land n.ip (onesMask n.prefixLen n.ip.length) = n.ip := by
      rw [h4, ← hmask]
      exact hhost
    rw [land_onesMask_eq_self_iff (by rw [h4]; exact hle), h4, hip,
      uint32ToIpv4, value_uint32Bytes] at hself
    rw [hlen]
    exact hself

/-! ## Networks of host IDs -/

theorem mod_two_pow_min (h : UInt8) (k : ℕ) :
    h.toNat % 2 ^ min 8 k = h.toNat % 2 ^ k := by
  rcases Nat.le_total k 8 with hk | hk
  · rw [Nat.min_eq_right hk]
  · rw [Nat.min_eq_left hk, Nat.mod_eq_of_lt h.toNat_lt, Nat.mod_eq_of_lt
      (h.toNat_lt.trans_le (Nat.pow_le_pow_right (by decide) hk))]

def networkNumber (base : UInt32) (subnetLen len hostID : UInt8) : UInt32 :=
  base + shl32 (convertToHostIPPart hostID (len - subnetLen)).toUInt32
    (32 - len).toNat

section Number

variable {base : UInt32} {s len h h' : UInt8}

theorem two_pow_sub_mul (hs : s < len) (hlen : len ≤ 32) :
    2 ^ (len.toNat - s.toNat) * 2 ^ (32 - len.toNat) = 2 ^ (32 - s.toNat) := by
  have hslt := UInt8.lt_iff_toNat_lt.mp hs
  have hle : len.toNat ≤ 32 := UInt8.le_iff_toNat_le.mp hlen
  rw [← Nat.pow_add]
  congr 1
  omega

theorem hostPart_lt (hs : s < len) (hlen : len ≤ 32) (h : UInt8) :
    h.toNat % 2 ^ (len.toNat - s.toNat) * 2 ^ (32 - len.toNat) <
      2 ^ (32 - s.toNat) := by
  rw [← two_pow_sub_mul hs hlen]
  exact Nat.mul_lt_mul_of_pos_right (Nat.mod_lt _ (Nat.two_pow_pos _))
    (Nat.two_pow_pos _)

variable (hbase : Aligned base s)

include hbase

theorem Aligned.applyHostID_eq : applyHostID (numberNet base s) h len =
    .ok (numberNet (networkNumber base s len h) len) := by
  have hip : (numberNet base s).ip = uint32ToIpv4 base := rfl
  rw [applyHostID, hip, ipv4ToUint32_uint32ToIpv4,
    subnetPrefixLen_numberNet hbase.le]
  rfl

variable (hs : s < len) (hlen : len ≤ 32)

include hs hlen

theorem Aligned.toNat_networkNumber : (networkNumber base s len h).toNat =
    base.toNat + h.toNat % 2 ^ (len.toNat - s.toNat) * 2 ^ (32 - len.toNat) := by
  have hpart := hostPart_lt hs hlen h
  have hfits := hbase.add_lt hpart
  rw [networkNumber, UInt32.toNat_add, toNat_shl32, UInt8.toNat_toUInt32,
    toNat_convertToHostIPPart, mod_two_pow_min,
    UInt8.toNat_sub_of_le _ _ (UInt8.le_of_lt hs),
    UInt8.toNat_sub_of_le _ _ hlen, Nat.add_mod_mod]
  exact Nat.mod_eq_of_lt hfits

theorem Aligned.networkNumber : Aligned (networkNumber base s len h) len := by
  refine ⟨hlen, ?_⟩
  rw [hbase.toNat_networkNumber hs hlen]
  refine Nat.dvd_add (Nat.dvd_trans ?_ hbase.dvd) (Nat.dvd_mul_left _ _)
  rw [← two_pow_sub_mul hs hlen]
  exact Nat.dvd_mul_left _ _

theorem Aligned.contains_subnet {x : IP}
    (hx : (numberNet (Ipam.networkNumber base s len h) len).contains x =
      true) : (numberNet base s).contains x = true := by
  rw [numberNet_contains_iff hlen] at hx
  rw [numberNet_contains_iff hbase.le]
  refine ⟨hx.1, ?_⟩
  have hdvd := hbase.dvd
  have hpart := hostPart_lt hs hlen h
  rw [← two_pow_sub_mul hs hlen, Nat.mul_comm, ← Nat.div_div_eq_div_mul,
    ← Nat.div_div_eq_div_mul, ← hx.2, Nat.div_div_eq_div_mul,
    Nat.div_div_eq_div_mul, Nat.mul_comm, two_pow_sub_mul hs hlen,
    hbase.toNat_networkNumber hs hlen]
  obtain ⟨q, hq⟩ := hdvd
  rw [hq, Nat.mul_add_div (Nat.two_pow_pos _), Nat.div_eq_of_lt hpart,
    Nat.mul_div_cancel_left _ (Nat.two_pow_pos _), Nat.add_zero]

theorem Aligned.networkNumber_congr (hmod : h.toNat % 2 ^ (len.toNat - s.toNat) =
      h'.toNat % 2 ^ (len.toNat - s.toNat)) :
    Ipam.networkNumber base s len h = Ipam.networkNumber base s len h' := by
  apply UInt32.toNat_inj.mp
  rw [hbase.toNat_networkNumber hs hlen, hbase.toNat_networkNumber hs hlen, hmod]

theorem Aligned.disjoint_iff :
    IPNet.Disjoint (numberNet (Ipam.networkNumber base s len h) len)
        (numberNet (Ipam.networkNumber base s len h') len) ↔
      h.toNat % 2 ^ (len.toNat - s.toNat) ≠
        h'.toNat % 2 ^ (len.toNat - s.toNat) := by
  have hsplit : Splits (numberNet base s) len := by
    refine ⟨?_, by rwa [subnetPrefixLen_numberNet hbase.le]⟩
    have hle : (numberNet base s).prefixLen ≤ 8 * 4 :=
      hbase.block.prefixLen_le
    omega
  have hbits : hostBits (numberNet base s) len = min 8 (len.toNat - s.toNat) := by
    rw [hostBits, IPNet.prefixLen, numberNet, maskSize_prefixMask hbase.le]
  rw [hsplit.disjoint_iff hlen hbase.applyHostID_eq hbase.applyHostID_eq,
    hbits, mod_two_pow_min, mod_two_pow_min]

end Number

/-! ## Networks of accepted configurations -/

/-- A block with such a short prefix has no IPv4-mapped address: the ones of
the mapping would be among the host bits. -/
theorem IPNet.Block.length_four {n : IPNet} (h : n.Block)
    (hpre : n.prefixLen ≤ 80) (hto4 : to4 n.ip ≠ none) :
    n.ip.length = 4 := by
  rcases h.length with h4 | h16
  · exact h4
  · exfalso
    have hmapped : n.ip.take 12 = v4InV6Prefix := by
      by_contra hne
      apply hto4
      simp [to4, ipv4Len, h16, hne]
    have hbits : bits n.ip = (bits n.ip).take n.prefixLen ++
        List.replicate (128 - n.prefixLen) false := by
      have hland := @bits_land_onesMask n.ip n.prefixLen (by omega)
      rw [← h.mask_eq, h.hostZero, h16] at hland
      exact hland
    have htrue : (bits n.ip)[80]? = some true := by
      have htake : (bits (n.ip.take 12))[80]? = some true := by
        rw [hmapped]
        decide
      rwa [bits_take, List.getElem?_take_of_lt (by decide)] at htake
    have hlength : ((bits n.ip).take n.prefixLen).length = n.prefixLen := by
      rw [List.length_take, bits_length, h16]
      omega
    rw [hbits, List.getElem?_append_right (by omega), hlength,
      List.getElem?_replicate] at htrue
    split_ifs at htrue
    · cases htrue

variable {subnet network : IPNet}

theorem exists_base {len h : UInt8} (hblock : subnet.Block)
    (hsplit : Splits subnet len) (hlen : len ≤ 32)
    (happly : applyHostID subnet h len = .ok network) :
    ∃ base s, Aligned base s ∧ s < len ∧ subnet = numberNet base s ∧
      network = numberNet (networkNumber base s len h) len := by
  have hle : len.toNat ≤ 32 := UInt8.le_iff_toNat_le.mp hlen
  have hpre : subnet.prefixLen < len.toNat := by
    have hlt := UInt8.lt_iff_toNat_lt.mp hsplit.lt
    have hsize := hsplit.size
    rwa [subnetPrefixLen, UInt8.toNat_ofNat_of_lt' (by
      rw [UInt8.size]
      exact Nat.lt_of_le_of_lt hsize (by decide))] at hlt
  have h4 : subnet.ip.length = 4 := by
    apply IPNet.Block.length_four hblock (by omega)
    intro hnone
    rw [applyHostID, ipv4ToUint32, hnone] at happly
    cases happly
  obtain ⟨base, hsubnet, hbase⟩ := exists_numberNet hblock h4
  refine ⟨base, subnetPrefixLen subnet, hbase, hsplit.lt, hsubnet, ?_⟩
  rw [hsubnet, hbase.applyHostID_eq, Except.ok.injEq] at happly
  exact happly.symm

theorem applyHostID_aligned {len h : UInt8} {number : UInt32}
    (hblock : subnet.Block) (hsplit : Splits subnet len) (hlen : len ≤ 32)
    (happly : applyHostID subnet h len = .ok network)
    (hnumber : ipv4ToUint32 network.ip = .ok number) :
    Aligned number len ∧ network = numberNet number len ∧
      ∀ x, network.contains x = true → subnet.contains x = true := by
  obtain ⟨base, s, hbase, hs, rfl, rfl⟩ :=
    exists_base hblock hsplit hlen happly
  obtain rfl := Except.ok.inj ((ipv4ToUint32_uint32ToIpv4 _).symm.trans hnumber)
  exact ⟨hbase.networkNumber hs hlen, rfl,
    fun x hx => hbase.contains_subnet hs hlen hx⟩

/-! ## Networks as the nodes see them -/

/-- A copy of the first four bytes; `none` is an index out of range. -/
def newIP : IP → Option IP
  | a :: b :: c :: d :: _ => some [a, b, c, d]
  | _ => none

def newIPNet (ipNet : IPNet) : Option IPNet :=
  match newIP ipNet.ip, ipNet.mask with
  | some ip, a :: b :: c :: d :: _ => some ⟨ip, [a, b, c, d]⟩
  | _, _ => none

def IPAM.podNetwork (i : IPAM) : Option IPNet :=
  newIPNet i.podNetworkIPPrefix

def IPAM.vSwitchNetwork (i : IPAM) : Option IPNet :=
  newIPNet i.vSwitchNetworkIPPrefix

theorem newIPNet_numberNet (number : UInt32) (len : UInt8) :
    newIPNet (numberNet number len) = some (numberNet number len) := rfl

theorem otherHostNetwork_eq {network' : IPNet} {len h h' : UInt8}
    (hsplit : Splits subnet len) (hlen : len ≤ 32)
    (hnet : applyHostID subnet h len = .ok network)
    (hnet' : applyHostID subnet h' len = .ok network') :
    otherHostNetwork subnet network h' = .ok network' := by
  obtain ⟨number, _, _, rfl, _⟩ := hsplit.applyHostID_eq hlen hnet
  rw [otherHostNetwork, subnetPrefixLen_numberNet hlen, hnet']

/-- Blocks of a subnet that host IDs number: they are inside of the subnet, the
same for IDs that agree on the bits between the prefix lengths and disjoint for
others, and every node finds them for every other node. -/
theorem applyHostID_networks (h₁ h₂ : UInt8) :
    (∀ subnet : IPNet, subnet.Block → subnet.ip.length = 4 →
      ∀ len : UInt8, subnet.prefixLen < len.toNat → len ≤ 32 →
      ∃ a b, applyHostID subnet h₁ len = .ok a ∧
        applyHostID subnet h₂ len = .ok b ∧
        (a.Block ∧ a.ip.length = 4 ∧ maskSize a.mask = (len.toNat, 32)) ∧
        (∀ x, a.contains x = true → subnet.contains x = true) ∧
        (h₁.toNat % 2 ^ (len.toNat - subnet.prefixLen) =
            h₂.toNat % 2 ^ (len.toNat - subnet.prefixLen) → a = b) ∧
        (h₁.toNat % 2 ^ (len.toNat - subnet.prefixLen) ≠
            h₂.toNat % 2 ^ (len.toNat - subnet.prefixLen) →
          IPNet.Disjoint a b)) ∧
    ∀ config i₁, newIPAM h₁ config = .ok i₁ → ∃ i₂, newIPAM h₂ config = .ok i₂ ∧
        (config.podNetworkPrefixLen ≤ 32 →
          i₂.podNetwork = some i₂.podNetworkIPPrefix ∧
          (i₁.otherHostPodNetwork h₂).map newIPNet = .ok i₂.podNetwork) ∧
        (config.vSwitchNetworkPrefixLen ≤ 32 →
          i₂.vSwitchNetwork = some i₂.vSwitchNetworkIPPrefix ∧
          (i₁.otherHostVSwitchNetwork h₂).map newIPNet =
            .ok i₂.vSwitchNetwork) := by
  constructor
  · intro subnet hblock h4 len hlt hlen
    obtain ⟨base, hsubnet, hbase⟩ := exists_numberNet hblock h4
    have hpre : (subnetPrefixLen subnet).toNat = subnet.prefixLen := by
      have hle := hblock.prefixLen_le
      rw [h4] at hle
      exact UInt8.toNat_ofNat_of_lt' (Nat.lt_of_le_of_lt hle (by decide))
    have hs : subnetPrefixLen subnet < len := by
      rw [UInt8.lt_iff_toNat_lt, hpre]
      exact hlt
    generalize subnetPrefixLen subnet = s at hsubnet hbase hpre hs
    subst hsubnet
    rw [← hpre]
    refine ⟨_, _, hbase.applyHostID_eq, hbase.applyHostID_eq,
      ⟨(hbase.networkNumber hs hlen).block, rfl, maskSize_prefixMask hlen⟩,
      fun x hx => hbase.contains_subnet hs hlen hx, ?_, ?_⟩
    · intro hmod
      rw [hbase.networkNumber_congr hs hlen hmod]
    · exact (hbase.disjoint_iff hs hlen).mpr
  · intro config i₁ hi₁
    obtain ⟨i₂, hi₂⟩ := exists_newIPAM hi₁ h₂
    have hb := built_of_newIPAM hi₁
    have hb' := built_of_newIPAM hi₂
    have hpodSubnet : i₂.podSubnetIPPrefix = i₁.podSubnetIPPrefix :=
      Option.some.inj (hb'.podSubnet.symm.trans hb.podSubnet)
    have hvSwitchSubnet : i₂.vSwitchSubnetIPPrefix = i₁.vSwitchSubnetIPPrefix :=
      Option.some.inj (hb'.vSwitchSubnet.symm.trans hb.vSwitchSubnet)
    have hpod := hb'.podNetwork
    have hvSwitch := hb'.vSwitchNetwork
    rw [hpodSubnet] at hpod
    rw [hvSwitchSubnet] at hvSwitch
    refine ⟨i₂, hi₂, fun hlen => ?_, fun hlen => ?_⟩
    · obtain ⟨number, _, _, hnumber, _⟩ :=
        hb.podSplits.applyHostID_eq hlen hpod
      refine ⟨?_, ?_⟩
      · rw [IPAM.podNetwork, hnumber, newIPNet_numberNet]
      · rw [IPAM.otherHostPodNetwork,
          otherHostNetwork_eq hb.podSplits hlen hb.podNetwork hpod]
        rfl
    · obtain ⟨number, _, _, hnumber, _⟩ :=
        hb.vSwitchSplits.applyHostID_eq hlen hvSwitch
      refine ⟨?_, ?_⟩
      · rw [IPAM.vSwitchNetwork, hnumber, newIPNet_numberNet]
      · rw [IPAM.otherHostVSwitchNetwork,
          otherHostNetwork_eq hb.vSwitchSplits hlen hb.vSwitchNetwork hvSwitch]
        rfl

/-- Nodes 1 and 2 under the default configuration. -/
theorem applyHostID_networks_defaultConfig :
    (∃ a b, applyHostID defaultIPAM.podSubnetIPPrefix 1 24 = .ok a ∧
      applyHostID defaultIPAM.podSubnetIPPrefix 2 24 = .ok b ∧
      IPNet.Disjoint a b) ∧
    ∃ i₂, newIPAM 2 defaultConfig = .ok i₂ ∧
      (defaultIPAM.otherHostPodNetwork 2).map newIPNet = .ok i₂.podNetwork := by
  have hblock : defaultIPAM.podSubnetIPPrefix.Block :=
    ⟨Or.inl rfl, by decide, by decide, by decide⟩
  constructor
  · obtain ⟨a, b, ha, hb, _, _, _, hdisj⟩ := (applyHostID_networks 1 2).1
      defaultIPAM.podSubnetIPPrefix hblock rfl 24 (by decide) (by decide)
    exact ⟨a, b, ha, hb, hdisj (by decide)⟩
  · obtain ⟨i₂, hi₂, hpod, _⟩ := (applyHostID_networks 1 2).2 defaultConfig
      defaultIPAM newIPAM_defaultConfig
    exact ⟨i₂, hi₂, (hpod (by decide)).2⟩

end ContivVPP.Ipam
