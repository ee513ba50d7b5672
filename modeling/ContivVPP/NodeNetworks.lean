import ContivVPP.IPAMNetworks
import ContivVPP.NodeIDAllocatorRun

/-!
# Networks of the nodes of a cluster

An allocated ID has 32 bits.  The allocator returns its last eight bits as the
host ID, and the networks of a node have as many of these as fit between the
prefix lengths of the configuration.  So the networks of different nodes stay
apart as long as there are no more nodes than such numbers; from then on, some
runs give two nodes the same network.
-/

namespace ContivVPP.NodeID

open Ipam

variable {ν : Type*} [DecidableEq ν] {label : ν → String} {c : Cluster ν}

/-! ## Host IDs -/

structure HasHostID (c : Cluster ν) (n : ν) (hostID : UInt8) : Prop where
  allocated : (c.node n).allocated = true
  returned : (c.node n).returned = some (.ok hostID)

def ReturnsID (a : IDAllocator) : Prop :=
  a.allocated = true → a.returned = some (.ok a.ID.toUInt8)

variable {a : IDAllocator}

theorem returnsID_getID (h : ReturnsID a) : ReturnsID (getID a) := by
  unfold getID
  split_ifs with hpc halloc
  · exact fun _ => rfl
  · exact h
  · exact h

theorem returnsID_releaseID (h : ReturnsID a) : ReturnsID (releaseID a) := by
  unfold releaseID
  split_ifs
  · exact h
  · exact h

theorem returnsID_proceed {text : String} {etcd : Store}
    (hwaiting : a.pc ≠ .idle → a.pc ≠ .delete → a.allocated = false)
    (h : ReturnsID a) (reply : Reply) :
    ReturnsID (proceed text etcd a reply).2 := by
  have hfree : ∀ {a' : IDAllocator}, a'.allocated = a.allocated →
      a.pc ≠ .idle → a.pc ≠ .delete → ReturnsID a' := by
    intro a' heq hidle hdelete halloc
    rw [heq, hwaiting hidle hdelete] at halloc
    cases halloc
  unfold proceed
  split
  · exact h
  · exact h
  · intro halloc
    cases halloc
  · next hdone hidle hdelete => exact hfree rfl hidle hdelete
  · next hpc =>
      split
      · exact fun _ => rfl
      · exact hfree rfl (by simp [hpc]) (by simp [hpc])
  · next hpc =>
      split
      · exact hfree rfl (by simp [hpc]) (by simp [hpc])
      · exact hfree rfl (by simp [hpc]) (by simp [hpc])
  · next hpc =>
      split
      · exact fun _ => rfl
      · split_ifs
        · exact hfree rfl (by simp [hpc]) (by simp [hpc])
        · exact hfree rfl (by simp [hpc]) (by simp [hpc])

theorem returnsID_set {n : ν} {etcd : Store} (h : ∀ m, ReturnsID (c.node m))
    (ha : ReturnsID a) (m : ν) :
    ReturnsID ((Cluster.set ⟨etcd, c.node⟩ n a).node m) := by
  by_cases hm : m = n
  · subst hm
    rw [Cluster.node_set_self]
    exact ha
  · rw [Cluster.node_set_of_ne hm]
    exact h m

theorem returnsID_run (hlabel : Function.Injective label)
    (actions : List (Action ν)) (m : ν) :
    ReturnsID ((run label actions).node m) := by
  induction actions using List.reverseRecOn generalizing m with
  | nil =>
      intro halloc
      cases halloc
  | append_singleton actions action ih =>
      rw [run, List.foldl_append, List.foldl_cons, List.foldl_nil]
      change ReturnsID ((step label (run label actions) action).node m)
      cases action with
      | getID n => exact returnsID_set ih (returnsID_getID (ih n)) m
      | releaseID n => exact returnsID_set ih (returnsID_releaseID (ih n)) m
      | proceed n reply =>
          exact returnsID_set ih (returnsID_proceed
            ((inv_run hlabel actions).waiting n) (ih n) reply) m
      | crash n =>
          refine returnsID_set ih ?_ m
          intro halloc
          cases halloc

/-! ## Disjoint networks -/

structure Separate (config : Config) (h h' : UInt8) : Prop where
  hostID : h ≠ h'
  podNetwork : ∀ i i', newIPAM h config = .ok i → newIPAM h' config = .ok i' →
      IPNet.Disjoint i.podNetworkIPPrefix i'.podNetworkIPPrefix
  vSwitchNetwork : ∀ i i', newIPAM h config = .ok i → newIPAM h' config = .ok i' →
      IPNet.Disjoint i.vSwitchNetworkIPPrefix i'.vSwitchNetworkIPPrefix

def NetworksSeparate (config : Config) (c : Cluster ν) : Prop :=
  ∀ n m h h', n ≠ m → HasHostID c n h → HasHostID c m h' → Separate config h h'

def subnetHostBits (subnetCIDR : String) (networkPrefixLen : UInt8) : ℕ :=
  match Net.parseCIDR subnetCIDR with
  | none => 0
  | some subnet => hostBits subnet networkPrefixLen

/-- How many nodes the configuration has host IDs and networks for. -/
def capacity (config : Config) : ℕ :=
  2 ^ min (subnetHostBits config.podSubnetCIDR config.podNetworkPrefixLen)
    (subnetHostBits config.vSwitchSubnetCIDR config.vSwitchNetworkPrefixLen)

theorem subnetHostBits_le (subnetCIDR : String) (len : UInt8) :
    subnetHostBits subnetCIDR len ≤ 8 := by
  unfold subnetHostBits
  split
  · exact Nat.zero_le 8
  · exact Nat.min_le_left _ _

theorem capacity_dvd (config : Config) : capacity config ∣ 256 :=
  Nat.pow_dvd_pow 2 (Nat.le_trans (Nat.min_le_left _ _) (subnetHostBits_le _ _))

/-- A configuration that the constructor accepts, with networks of the length
of IPv4 prefixes. -/
structure Accepted (config : Config) : Prop where
  new : ∃ h i, newIPAM h config = .ok i
  podLen : config.podNetworkPrefixLen ≤ 32
  vSwitchLen : config.vSwitchNetworkPrefixLen ≤ 32

section Separate

variable {config : Config} {h h' : UInt8} {i i' : IPAM}

theorem podNetwork_disjoint_iff (hlen : config.podNetworkPrefixLen ≤ 32)
    (hi : newIPAM h config = .ok i) (hi' : newIPAM h' config = .ok i') :
    IPNet.Disjoint i.podNetworkIPPrefix i'.podNetworkIPPrefix ↔
      h.toNat % 2 ^ subnetHostBits config.podSubnetCIDR
          config.podNetworkPrefixLen ≠
        h'.toNat % 2 ^ subnetHostBits config.podSubnetCIDR
          config.podNetworkPrefixLen := by
  have hb := built_of_newIPAM hi
  have hb' := built_of_newIPAM hi'
  have hsubnet : i'.podSubnetIPPrefix = i.podSubnetIPPrefix :=
    Option.some.inj (hb'.podSubnet.symm.trans hb.podSubnet)
  have hnet' := hb'.podNetwork
  rw [hsubnet] at hnet'
  rw [hb.podSplits.disjoint_iff hlen hb.podNetwork hnet', subnetHostBits,
    hb.podSubnet]

theorem vSwitchNetwork_disjoint_iff (hlen : config.vSwitchNetworkPrefixLen ≤ 32)
    (hi : newIPAM h config = .ok i) (hi' : newIPAM h' config = .ok i') :
    IPNet.Disjoint i.vSwitchNetworkIPPrefix i'.vSwitchNetworkIPPrefix ↔
      h.toNat % 2 ^ subnetHostBits config.vSwitchSubnetCIDR
          config.vSwitchNetworkPrefixLen ≠
        h'.toNat % 2 ^ subnetHostBits config.vSwitchSubnetCIDR
          config.vSwitchNetworkPrefixLen := by
  have hb := built_of_newIPAM hi
  have hb' := built_of_newIPAM hi'
  have hsubnet : i'.vSwitchSubnetIPPrefix = i.vSwitchSubnetIPPrefix :=
    Option.some.inj (hb'.vSwitchSubnet.symm.trans hb.vSwitchSubnet)
  have hnet' := hb'.vSwitchNetwork
  rw [hsubnet] at hnet'
  rw [hb.vSwitchSplits.disjoint_iff hlen hb.vSwitchNetwork hnet',
    subnetHostBits, hb.vSwitchSubnet]

theorem mod_ne_of_dvd {a b m n : ℕ} (hdvd : m ∣ n) (hne : a % m ≠ b % m) :
    a % n ≠ b % n := by
  intro heq
  exact hne (Nat.ModEq.of_dvd hdvd heq)

theorem separate_iff (haccepted : Accepted config) : Separate config h h' ↔
      h.toNat % capacity config ≠ h'.toNat % capacity config := by
  obtain ⟨h₀, i₀, hnew⟩ := haccepted.new
  obtain ⟨i, hi⟩ := exists_newIPAM hnew h
  obtain ⟨i', hi'⟩ := exists_newIPAM hnew h'
  constructor
  · intro hsep
    have hpod := (podNetwork_disjoint_iff haccepted.podLen hi hi').mp
      (hsep.podNetwork i i' hi hi')
    have hvSwitch := (vSwitchNetwork_disjoint_iff haccepted.vSwitchLen hi
      hi').mp (hsep.vSwitchNetwork i i' hi hi')
    unfold capacity
    rcases Nat.le_total
      (subnetHostBits config.podSubnetCIDR config.podNetworkPrefixLen)
      (subnetHostBits config.vSwitchSubnetCIDR
        config.vSwitchNetworkPrefixLen) with hle | hle
    · rw [Nat.min_eq_left hle]
      exact hpod
    · rw [Nat.min_eq_right hle]
      exact hvSwitch
  · intro hne
    refine ⟨?_, ?_, ?_⟩
    · intro heq
      rw [heq] at hne
      exact hne rfl
    · intro i i' hi hi'
      rw [podNetwork_disjoint_iff haccepted.podLen hi hi']
      exact mod_ne_of_dvd (Nat.pow_dvd_pow 2 (Nat.min_le_left _ _)) hne
    · intro i i' hi hi'
      rw [vSwitchNetwork_disjoint_iff haccepted.vSwitchLen hi hi']
      exact mod_ne_of_dvd (Nat.pow_dvd_pow 2 (Nat.min_le_right _ _)) hne

end Separate

/-! ## Clusters of any size -/

theorem toNat_toUInt8_mod (config : Config) (id : UInt32) :
    id.toUInt8.toNat % capacity config = id.toNat % capacity config := by
  rw [UInt32.toNat_toUInt8]
  exact Nat.mod_mod_of_dvd _ (capacity_dvd config)

theorem networksSeparate_of_card_le [Fintype ν] {config : Config}
    (hlabel : Function.Injective label) (haccepted : Accepted config)
    (hcard : Fintype.card ν ≤ capacity config)
    (actions : List (Action ν)) :
    NetworksSeparate config (run label actions) := by
  have hcap : capacity config ≤ 256 :=
    Nat.le_of_dvd (by decide) (capacity_dvd config)
  have hinv := inv_run hlabel actions
  have hbounded := bounded_run hlabel (by omega) actions
  intro n m h h' hnm hn hm
  have hid : ∀ {n h}, HasHostID (run label actions) n h →
      h = ((run label actions).node n).ID.toUInt8 := by
    intro n h hn
    have hret := returnsID_run hlabel actions n hn.allocated
    rw [hn.returned, Option.some.injEq, Except.ok.injEq] at hret
    exact hret
  have hrange : ∀ {n h}, HasHostID (run label actions) n h →
      1 ≤ ((run label actions).node n).ID.toNat ∧
        ((run label actions).node n).ID.toNat ≤ Fintype.card ν :=
    fun hn => hbounded.ids _ _ (hinv.owns _ hn.allocated)
  have hne : ((run label actions).node n).ID.toNat ≠
      ((run label actions).node m).ID.toNat := by
    intro heq
    exact hnm ((hinv.safe hlabel).distinct n m hn.allocated hm.allocated
      (UInt32.toNat_inj.mp heq))
  rw [separate_iff haccepted, hid hn, hid hm, toNat_toUInt8_mod,
    toNat_toUInt8_mod]
  intro hmod
  have hn' := hrange hn
  have hm' := hrange hm
  -- Both IDs are in a range of as many numbers as the capacity.
  have hdist := Nat.ModEq.add_right_cancel' 1 (show
    ((run label actions).node n).ID.toNat - 1 + 1 ≡
      ((run label actions).node m).ID.toNat - 1 + 1 [MOD capacity config] by
    rw [Nat.sub_add_cancel hn'.1, Nat.sub_add_cancel hm'.1]
    exact hmod)
  rw [Nat.ModEq, Nat.mod_eq_of_lt (by omega), Nat.mod_eq_of_lt (by omega)]
    at hdist
  omega

/-- With more nodes than that, the first one and the one after the last that
fits get the same network. -/
theorem exists_run_not_separate [Fintype ν] {config : Config}
    (hlabel : Function.Injective label) (haccepted : Accepted config)
    (hcard : capacity config < Fintype.card ν) :
    ∃ actions, ¬ NetworksSeparate config (run label actions) := by
  have hcap : capacity config ≤ 256 :=
    Nat.le_of_dvd (by decide) (capacity_dvd config)
  have hpos : 0 < capacity config := Nat.two_pow_pos _
  let ns := (Finset.univ : Finset ν).toList.take (capacity config + 1)
  have hlen : ns.length = capacity config + 1 := by
    rw [List.length_take, Finset.length_toList, Finset.card_univ]
    omega
  have hnodup : ns.Nodup :=
    (Finset.nodup_toList _).sublist (List.take_sublist _ _)
  obtain ⟨actions, hfilled⟩ := exists_filled hlabel ns hnodup (by omega)
  have hfirst := hfilled.allocated 0 (by omega)
  have hlast := hfilled.allocated (capacity config) (by omega)
  refine ⟨actions, fun hsep => ?_⟩
  have hne : ns.get ⟨0, by omega⟩ ≠ ns.get ⟨capacity config, by omega⟩ := by
    intro heq
    have hidx := (List.Nodup.get_inj_iff hnodup).mp heq
    rw [Fin.mk.injEq] at hidx
    omega
  have hboth := hsep _ _ _ _ hne ⟨by rw [hfirst]; rfl, by rw [hfirst]; rfl⟩
    ⟨by rw [hlast]; rfl, by rw [hlast]; rfl⟩
  rw [separate_iff haccepted, toNat_toUInt8_mod, toNat_toUInt8_mod] at hboth
  apply hboth
  rw [UInt32.toNat_ofNat_of_lt' (by rw [UInt32.size]; omega),
    UInt32.toNat_ofNat_of_lt' (by rw [UInt32.size]; omega),
    Nat.zero_add, Nat.add_comm, Nat.add_mod_right]

/-- The nodes of a cluster always have different host IDs and disjoint
networks if and only if there are no more of them than the configuration has
networks for. -/
theorem networksSeparate_iff [Fintype ν] {config : Config}
    (hlabel : Function.Injective label) (haccepted : Accepted config) :
    (∀ actions, NetworksSeparate config (run label actions)) ↔
      Fintype.card ν ≤ capacity config := by
  constructor
  · intro hall
    by_contra hcard
    obtain ⟨actions, hnot⟩ := exists_run_not_separate hlabel haccepted
      (Nat.lt_of_not_le hcard)
    exact hnot (hall actions)
  · exact networksSeparate_of_card_le hlabel haccepted

theorem accepted_defaultConfig : Accepted defaultConfig where
  new := ⟨1, defaultIPAM, newIPAM_defaultConfig⟩
  podLen := by decide
  vSwitchLen := by decide

theorem networksSeparate_iff_threeNodes :
    Function.Injective (nodeName : Fin 3 → String) ∧ Accepted defaultConfig ∧
      ((∀ actions, NetworksSeparate defaultConfig
          (run (nodeName : Fin 3 → String) actions)) ↔
        Fintype.card (Fin 3) ≤ capacity defaultConfig) :=
  ⟨nodeName_injective, accepted_defaultConfig,
    networksSeparate_iff nodeName_injective accepted_defaultConfig⟩

/-- Node 257 gets the host ID of node 1. -/
theorem not_networksSeparate_of_manyNodes : ∃ actions : List (Action (Fin 257)),
      ¬ NetworksSeparate defaultConfig (run nodeName actions) := by
  refine exists_run_not_separate nodeName_injective accepted_defaultConfig ?_
  rw [Fintype.card_fin]
  decide +kernel

end ContivVPP.NodeID
