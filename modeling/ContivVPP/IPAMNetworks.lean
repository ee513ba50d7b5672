import ContivVPP.IPAM
import ContivVPP.NetTextIPv6

/-!
# Networks computed from host IDs

Two host IDs give the same network exactly when they agree on the bits that
the subnet leaves for them, at most eight; otherwise the networks have no
address in common.
-/

namespace ContivVPP.Ipam

open ByteBits Net

/-! ## Numbers for addresses -/

theorem value_bits_four (a b c d : UInt8) : value (bits [a, b, c, d]) =
    2 ^ 24 * a.toNat + 2 ^ 16 * b.toNat + 2 ^ 8 * c.toNat + d.toNat := by
  simp only [bits_cons, bits_nil, value_append, value_byteBits,
    List.length_append, byteBits_length, List.length_nil]
  simp [value]
  omega

theorem value_uint32Bytes (x : UInt32) :
    value (bits (uint32Bytes x)) = x.toNat := by
  have hlt := x.toNat_lt
  rw [uint32Bytes, value_bits_four]
  simp [Nat.shiftRight_eq_div_pow]
  omega

theorem toNat_shl32 (x : UInt32) (k : ℕ) :
    (shl32 x k).toNat = x.toNat * 2 ^ k % 2 ^ 32 := by
  rw [shl32, UInt32.toNat_ofNat', Nat.shiftLeft_eq]

theorem prefixMask_eq {len : UInt8} (h : len ≤ 32) :
    prefixMask len = onesMask len.toNat 4 := by
  have hall : ∀ n < 33, prefixMask (UInt8.ofNat n) = onesMask n 4 := by
    decide
  have hlen := hall len.toNat (Nat.lt_succ_of_le (UInt8.le_iff_toNat_le.mp h))
  rwa [UInt8.ofNat_toNat] at hlen

theorem toNat_convertToHostIPPart (hostID size : UInt8) :
    (convertToHostIPPart hostID size).toNat =
      hostID.toNat % 2 ^ min 8 size.toNat := by
  have hmask : (shl8 1 size.toNat - 1).toNat = 2 ^ min 8 size.toNat - 1 := by
    have hone : (1 : UInt8).toNat <<< size.toNat = 2 ^ size.toNat := by
      rw [Nat.shiftLeft_eq]
      exact Nat.one_mul _
    rw [shl8, hone]
    rcases Nat.lt_or_ge size.toNat 8 with hlt | hge
    · rw [Nat.min_eq_right hlt.le]
      have hall : ∀ k < 8, (UInt8.ofNat (2 ^ k) - 1).toNat = 2 ^ k - 1 := by
        decide
      exact hall _ hlt
    · rw [Nat.min_eq_left hge]
      have hzero : UInt8.ofNat (2 ^ size.toNat) = 0 := by
        apply UInt8.toNat_inj.mp
        rw [UInt8.toNat_ofNat']
        exact Nat.mod_eq_zero_of_dvd (Nat.pow_dvd_pow 2 hge)
      rw [hzero]
      rfl
  rw [convertToHostIPPart, UInt8.toNat_and, hmask, Nat.and_two_pow_sub_one_eq_mod]

/-! ## Networks -/

def IPNet.Disjoint (a b : IPNet) : Prop :=
  ∀ x, ¬ (a.contains x = true ∧ b.contains x = true)

def numberNet (number : UInt32) (len : UInt8) : IPNet :=
  ⟨uint32ToIpv4 number, prefixMask len⟩

theorem numberNet_contains_iff {number : UInt32} {len : UInt8}
    (hlen : len ≤ 32) (x : IP) :
    (numberNet number len).contains x = true ↔ (norm x).length = 4 ∧
      number.toNat / 2 ^ (32 - len.toNat) =
        value (bits (norm x)) / 2 ^ (32 - len.toNat) := by
  have hle : len.toNat ≤ 32 := UInt8.le_iff_toNat_le.mp hlen
  have hmask := prefixMask_eq hlen
  have hnorm : norm (uint32ToIpv4 number) = uint32ToIpv4 number :=
    norm_of_length_four rfl
  have hones : (numberNet number len).prefixLen = len.toNat := by
    rw [IPNet.prefixLen, numberNet, hmask, maskSize_onesMask (by omega)]
  have hfamily : (numberNet number len).FamilyMask := by
    refine ⟨Or.inl rfl, ⟨?_, ?_⟩, ?_⟩
    · rw [hones]
      exact hle
    · rw [hones]
      exact hmask
    · change _ = (norm (uint32ToIpv4 number)).length
      rw [hnorm]
      rfl
  rw [hfamily.contains_iff, hones]
  change (norm x).length = (norm (uint32ToIpv4 number)).length ∧
    (bits (norm (uint32ToIpv4 number))).take _ = _ ↔ _
  rw [hnorm, uint32ToIpv4]
  refine and_congr_right fun hx => ?_
  have hbits : (bits (uint32Bytes number)).length = (bits (norm x)).length := by
    rw [bits_length, bits_length, hx]
  rw [take_eq_take_iff_value hbits (by rw [bits_length]; exact hle),
    value_uint32Bytes]
  rfl

/-! ## Networks of host IDs -/

theorem prefixLen_parseCIDR {text : String} {n : IPNet}
    (h : parseCIDR text = some n) : n.prefixLen ≤ 128 := by
  have hblock := parseCIDR_block h
  have hlen := hblock.length
  have hle := hblock.prefixLen_le
  omega

def hostBits (subnet : IPNet) (networkPrefixLen : UInt8) : ℕ :=
  min 8 (networkPrefixLen.toNat - subnet.prefixLen)

structure Splits (subnet : IPNet) (networkPrefixLen : UInt8) : Prop where
  size : subnet.prefixLen ≤ 128
  lt : subnetPrefixLen subnet < networkPrefixLen

section Splits

variable {subnet a b : IPNet} {len h h' : UInt8}

theorem Splits.toNat_sub (hsplit : Splits subnet len) :
    (len - subnetPrefixLen subnet).toNat = len.toNat - subnet.prefixLen := by
  have hsize := hsplit.size
  rw [UInt8.toNat_sub_of_le _ _ (UInt8.le_of_lt hsplit.lt), subnetPrefixLen,
    UInt8.toNat_ofNat_of_lt' (by
      rw [UInt8.size]
      exact Nat.lt_of_le_of_lt hsize (by decide))]
  rfl

theorem Splits.applyHostID_eq (hsplit : Splits subnet len) (hlen : len ≤ 32)
    (ha : applyHostID subnet h len = .ok a) :
    ∃ number s, ipv4ToUint32 subnet.ip = .ok s ∧ a = numberNet number len ∧
      number.toNat / 2 ^ (32 - len.toNat) =
        (s.toNat / 2 ^ (32 - len.toNat) + h.toNat % 2 ^ hostBits subnet len) %
          2 ^ len.toNat := by
  have hle : len.toNat ≤ 32 := UInt8.le_iff_toNat_le.mp hlen
  have hshift : (32 - len).toNat = 32 - len.toNat :=
    UInt8.toNat_sub_of_le _ _ hlen
  have hpow : 2 ^ 32 = 2 ^ (32 - len.toNat) * 2 ^ len.toNat := by
    rw [← Nat.pow_add, Nat.sub_add_cancel hle]
  unfold applyHostID at ha
  cases hs : ipv4ToUint32 subnet.ip with
  | error err =>
      rw [hs] at ha
      cases ha
  | ok s =>
      rw [hs] at ha
      refine ⟨_, s, rfl, (Except.ok.inj ha).symm, ?_⟩
      rw [UInt32.toNat_add, toNat_shl32, UInt8.toNat_toUInt32,
        toNat_convertToHostIPPart, hsplit.toNat_sub, hshift,
        Nat.add_mod_mod, hpow, Nat.mod_mul_right_div_self,
        Nat.add_mul_div_right _ _ (Nat.two_pow_pos _)]
      rfl

theorem Splits.two_pow_hostBits_le (subnet : IPNet) (len : UInt8) :
    2 ^ hostBits subnet len ≤ 2 ^ len.toNat :=
  Nat.pow_le_pow_right (by decide)
    (Nat.le_trans (Nat.min_le_right _ _) (Nat.sub_le _ _))

/-- The networks of two host IDs are disjoint if the IDs differ in the bits
that the networks have, and equal otherwise. -/
theorem Splits.disjoint_iff (hsplit : Splits subnet len) (hlen : len ≤ 32)
    (ha : applyHostID subnet h len = .ok a)
    (hb : applyHostID subnet h' len = .ok b) :
    IPNet.Disjoint a b ↔ h.toNat % 2 ^ hostBits subnet len ≠
      h'.toNat % 2 ^ hostBits subnet len := by
  obtain ⟨x, s, hs, rfl, hx⟩ := hsplit.applyHostID_eq hlen ha
  obtain ⟨y, s', hs', rfl, hy⟩ := hsplit.applyHostID_eq hlen hb
  rw [hs, Except.ok.injEq] at hs'
  subst hs'
  have hle := two_pow_hostBits_le subnet len
  have hlt := Nat.mod_lt h.toNat (Nat.two_pow_pos (hostBits subnet len))
  have hlt' := Nat.mod_lt h'.toNat (Nat.two_pow_pos (hostBits subnet len))
  constructor
  · intro hdisj heq
    apply hdisj (uint32ToIpv4 x)
    rw [numberNet_contains_iff hlen, numberNet_contains_iff hlen,
      norm_of_length_four rfl, uint32ToIpv4, value_uint32Bytes, hx, hy, heq]
    exact ⟨⟨rfl, rfl⟩, rfl, rfl⟩
  · intro hne ip hboth
    rw [numberNet_contains_iff hlen, numberNet_contains_iff hlen, hx, hy] at hboth
    apply hne
    have hmod := hboth.1.2.trans hboth.2.2.symm
    have hmod' := Nat.ModEq.add_left_cancel' (s.toNat / 2 ^ (32 - len.toNat)) hmod
    rwa [Nat.ModEq, Nat.mod_eq_of_lt (hlt.trans_le hle),
      Nat.mod_eq_of_lt (hlt'.trans_le hle)] at hmod'

theorem exists_applyHostID (ha : applyHostID subnet h len = .ok a)
    (h' : UInt8) : ∃ b, applyHostID subnet h' len = .ok b := by
  unfold applyHostID at ha ⊢
  cases hs : ipv4ToUint32 subnet.ip with
  | error err =>
      rw [hs] at ha
      cases ha
  | ok s => exact ⟨_, rfl⟩

end Splits

/-! ## Accepted configurations -/

theorem convertConfigNotation_eq_ok {text : String} {len h : UInt8}
    {subnet network : IPNet} :
    convertConfigNotation text len h = .ok (subnet, network) ↔
      parseCIDR text = some subnet ∧ Splits subnet len ∧
        applyHostID subnet h len = .ok network := by
  unfold convertConfigNotation
  cases hparse : parseCIDR text with
  | none => simp
  | some n =>
      by_cases hle : len ≤ subnetPrefixLen n
      · simp only [if_pos hle, reduceCtorEq, Option.some.injEq, false_iff]
        intro hall
        obtain ⟨rfl, hsplit, _⟩ := hall
        exact absurd hsplit.lt (UInt8.not_lt.mpr hle)
      · have hsplit : Splits n len :=
          ⟨prefixLen_parseCIDR hparse, UInt8.not_le.mp hle⟩
        simp only [if_neg hle, Option.some.injEq]
        cases happly : applyHostID n h len with
        | error err =>
            constructor
            · intro hok
              cases hok
            · intro hall
              obtain ⟨rfl, _, hok⟩ := hall
              rw [happly] at hok
              cases hok
        | ok net =>
            constructor
            · intro hok
              cases hok
              exact ⟨rfl, hsplit, happly⟩
            · intro hall
              obtain ⟨rfl, _, hok⟩ := hall
              rw [happly] at hok
              cases hok
              rfl

structure Built (config : Config) (hostID : UInt8) (i : IPAM) : Prop where
  hostID_eq : i.hostID = hostID
  podSubnet : parseCIDR config.podSubnetCIDR = some i.podSubnetIPPrefix
  podSplits : Splits i.podSubnetIPPrefix config.podNetworkPrefixLen
  podNetwork : applyHostID i.podSubnetIPPrefix hostID
    config.podNetworkPrefixLen = .ok i.podNetworkIPPrefix
  vSwitchSubnet :
    parseCIDR config.vSwitchSubnetCIDR = some i.vSwitchSubnetIPPrefix
  vSwitchSplits : Splits i.vSwitchSubnetIPPrefix config.vSwitchNetworkPrefixLen
  vSwitchNetwork : applyHostID i.vSwitchSubnetIPPrefix hostID
    config.vSwitchNetworkPrefixLen = .ok i.vSwitchNetworkIPPrefix
  hostNode : parseCIDR config.hostNodeSubnetCidr = some i.hostNodeNetworkIPPrefix
  assigned : i.assignedPodIPs = ∅

structure Counted (i : IPAM) (pod vSwitch : UInt32) : Prop where
  podNumber : ipv4ToUint32 i.podNetworkIPPrefix.ip = .ok pod
  vSwitchNumber : ipv4ToUint32 i.vSwitchNetworkIPPrefix.ip = .ok vSwitch
  gateway : i.podNetworkGatewayIP = uint32ToIpv4 (pod + gatewayPodSeqID)
  vethVPPEnd : i.vethVPPEndIP = uint32ToIpv4 (vSwitch + vethVPPEndIPHostSeqID)
  vethHostEnd : i.vethHostEndIP = uint32ToIpv4 (vSwitch + vethHostEndIPHostSeqID)

section

variable {config : Config} {hostID : UInt8} {i : IPAM}
  (h : newIPAM hostID config = .ok i)
include h

theorem newIPAM_spec :
    Built config hostID i ∧ ∃ pod vSwitch, Counted i pod vSwitch := by
  unfold newIPAM at h
  simp only [bind, Except.bind] at h
  split at h
  · cases h
  next pod hpod =>
  split at h
  · cases h
  next podNumber hpodNumber =>
  split at h
  · cases h
  next vSwitch hvSwitch =>
  split at h
  · cases h
  next vSwitchNumber hvSwitchNumber =>
  split at h
  · cases h
  next hostNode hhostNode =>
  cases h
  obtain ⟨hpodSubnet, hpodSplits, hpodNetwork⟩ :=
    convertConfigNotation_eq_ok.mp hpod
  obtain ⟨hsubnet, hsplits, hnetwork⟩ :=
    convertConfigNotation_eq_ok.mp hvSwitch
  exact ⟨⟨rfl, hpodSubnet, hpodSplits, hpodNetwork, hsubnet, hsplits,
    hnetwork, hhostNode, rfl⟩,
    podNumber, vSwitchNumber, hpodNumber, hvSwitchNumber, rfl, rfl, rfl⟩

theorem built_of_newIPAM : Built config hostID i :=
  (newIPAM_spec h).1

theorem exists_counted : ∃ pod vSwitch, Counted i pod vSwitch :=
  (newIPAM_spec h).2

end

theorem exists_ipv4ToUint32 {subnet network : IPNet} {len h : UInt8}
    (hnet : applyHostID subnet h len = .ok network) :
    ∃ number, ipv4ToUint32 network.ip = .ok number := by
  unfold applyHostID at hnet
  cases hs : ipv4ToUint32 subnet.ip with
  | error err =>
      rw [hs] at hnet
      cases hnet
  | ok s =>
      rw [hs] at hnet
      rw [← Except.ok.inj hnet]
      exact ⟨_, rfl⟩

theorem exists_newIPAM {config : Config} {hostID : UInt8} {i : IPAM}
    (h : newIPAM hostID config = .ok i) (hostID' : UInt8) :
    ∃ i', newIPAM hostID' config = .ok i' := by
  have hbuilt := built_of_newIPAM h
  obtain ⟨pod, hpod⟩ := exists_applyHostID hbuilt.podNetwork hostID'
  obtain ⟨vSwitch, hvSwitch⟩ :=
    exists_applyHostID hbuilt.vSwitchNetwork hostID'
  obtain ⟨podNumber, hpodNumber⟩ := exists_ipv4ToUint32 hpod
  obtain ⟨number, hnumber⟩ := exists_ipv4ToUint32 hvSwitch
  unfold newIPAM
  rw [convertConfigNotation_eq_ok.mpr ⟨hbuilt.podSubnet, hbuilt.podSplits, hpod⟩,
    convertConfigNotation_eq_ok.mpr
      ⟨hbuilt.vSwitchSubnet, hbuilt.vSwitchSplits, hvSwitch⟩,
    hbuilt.hostNode]
  simp only [bind, Except.bind, hpodNumber, hnumber]
  exact ⟨_, rfl⟩

end ContivVPP.Ipam
