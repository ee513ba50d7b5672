import ContivVPP.SubtractSubnet

/-!
# The pieces that subtraction leaves

The pieces of a network branch off the path to the exception at different
depths, so no address is in two of them.  They are exactly what is left of the
network, with one exception of IPv6: when a network inside `::fffe:0:0/96` is
cut out of a network that has all of `::fffe:0:0/95`, one of the pieces is
`::ffff:0:0/96`, the block of mapped addresses.
-/

namespace ContivVPP.Configurator

open Net BitPrefix ByteBits

/-- What has to be left of a network after subtraction. -/
structure Remains (network : IPNet) (except pieces : List IPNet) : Prop where
  canonical : ∀ s ∈ pieces, s.Canonical
  disjoint : pieces.Pairwise fun s s' =>
    ∀ x, ¬ (s.contains x = true ∧ s'.contains x = true)
  contains_iff : ∀ x, (∃ s ∈ pieces, s.contains x = true) ↔
    network.contains x = true ∧ ∀ e ∈ except, ¬ e.contains x = true

/-! ## Around the mapped block -/

/-- `::fffe:0:0/96`, the other half of the network one bit above the mapped
block. -/
def besideMapped : IPNet :=
  ⟨[0, 0, 0, 0, 0, 0, 0, 0, 0, 0, 0xff, 0xfe, 0, 0, 0, 0], onesMask 96 16⟩

def Encloses (n : IPNet) : Prop :=
  n.prefixLen < 96 ∧ n.contains besideMapped.ip = true

/-- The network is in the half beside the mapped block. -/
def Beside (n : IPNet) : Prop :=
  96 ≤ n.prefixLen ∧ besideMapped.contains n.ip = true

instance (n : IPNet) : Decidable (Encloses n) :=
  inferInstanceAs (Decidable (_ ∧ _))

instance (n : IPNet) : Decidable (Beside n) :=
  inferInstanceAs (Decidable (_ ∧ _))

def mappedParent : List Bool := (bits v4InV6Prefix).take 95

theorem besideMapped_canonical : besideMapped.Canonical := by decide

theorem besideMapped_prefixBits :
    besideMapped.prefixBits = mappedParent ++ [false] := by decide

theorem mappedBlock_prefixBits :
    mappedBlock.prefixBits = mappedParent ++ [true] := by decide

theorem mappedParent_length : mappedParent.length = 95 := by decide

theorem encloses_iff {n : IPNet} (h : n.Canonical) :
    Encloses n ↔ n.ip.length = 16 ∧ n.prefixBits <+: mappedParent := by
  have hbits : mappedParent <+: bits besideMapped.ip := by decide
  rw [Encloses, contains_ip_iff h besideMapped_canonical]
  constructor
  · rintro ⟨hlen, h16, hpre⟩
    refine ⟨h16.symm, List.prefix_of_prefix_length_le hpre hbits ?_⟩
    rw [h.prefixBits_length, mappedParent_length]
    omega
  · rintro ⟨h16, hpre⟩
    have hlen := hpre.length_le
    rw [h.prefixBits_length, mappedParent_length] at hlen
    exact ⟨by omega, h16.symm, hpre.trans hbits⟩

theorem beside_iff {n : IPNet} (h : n.Canonical) : Beside n ↔
      n.ip.length = 16 ∧ mappedParent ++ [false] <+: n.prefixBits := by
  have hlength : (mappedParent ++ [false]).length = 96 := by decide
  rw [Beside, contains_ip_iff besideMapped_canonical h, besideMapped_prefixBits]
  constructor
  · rintro ⟨hlen, h16, hpre⟩
    refine ⟨h16, List.prefix_of_prefix_length_le hpre
      (prefixBits_prefix_bits n) ?_⟩
    rw [h.prefixBits_length, hlength]
    exact hlen
  · rintro ⟨h16, hpre⟩
    have hlen := hpre.length_le
    rw [h.prefixBits_length, hlength] at hlen
    exact ⟨hlen, h16, hpre.trans (prefixBits_prefix_bits n)⟩

theorem not_mappedBits_isPrefix {n : IPNet} (h : n.Canonical)
    (h16 : n.ip.length = 16) : ¬ mappedParent ++ [true] <+: n.prefixBits := by
  intro hpre
  have hlength : (bits v4InV6Prefix).length = 96 := by decide
  have hbits : bits v4InV6Prefix <+: bits n.ip := by
    rw [show bits v4InV6Prefix = mappedParent ++ [true] by decide]
    exact hpre.trans (prefixBits_prefix_bits n)
  have htake : n.ip.take 12 = v4InV6Prefix := by
    apply bits_injective
    rw [List.prefix_iff_eq_take, hlength] at hbits
    rw [bits_take, hbits]
  rcases h.family with h4 | ⟨_, hnone⟩
  · omega
  · simp [to4, ipv4Len, ipv6Len, h16, htake] at hnone

theorem mappedParent_prefix_iff {n : IPNet} (h : n.Canonical)
    (h16 : n.ip.length = 16) :
    n.prefixBits <+: mappedParent ∨ mappedParent <+: n.prefixBits ↔
      Encloses n ∨ Beside n := by
  rw [encloses_iff h, beside_iff h]
  simp only [h16, true_and]
  refine ⟨?_, Or.imp_right fun hpre => (List.prefix_append _ _).trans hpre⟩
  rintro (hpre | ⟨rest, hrest⟩)
  · exact Or.inl hpre
  · cases rest with
    | nil =>
        rw [List.append_nil] at hrest
        exact Or.inl (hrest ▸ List.prefix_rfl)
    | cons b rest =>
        have hnext : mappedParent ++ [b] <+: n.prefixBits :=
          ⟨rest, by rw [← hrest, List.append_assoc]; rfl⟩
        cases b with
        | false => exact Or.inr hnext
        | true => exact absurd hnext (not_mappedBits_isPrefix h h16)

/-! ## One subtraction -/

theorem siblingSubnet_eq_mappedBlock_iff {e : IPNet} (he : e.Canonical)
    {bit : ℕ} (hbit : bit < e.prefixLen) :
    siblingSubnet e bit = mappedBlock ↔ bit = 95 ∧ Beside e := by
  have hroom : bit < e.prefixBits.length :=
    hbit.trans_eq he.prefixBits_length.symm
  have hbranch := branch_eq_iff (p := mappedParent) (b := true) hroom
  rw [mappedParent_length, Bool.not_true] at hbranch
  have hbits := siblingSubnet_prefixBits he.block hbit
  rw [beside_iff he]
  constructor
  · intro heq
    have h16 : e.ip.length = 16 := by
      rw [← siblingSubnet_ip_length he.block hbit, heq]
      rfl
    rw [heq, mappedBlock_prefixBits] at hbits
    obtain ⟨h95, hpre⟩ := hbranch.mp hbits.symm
    exact ⟨h95, h16, hpre⟩
  · rintro ⟨h95, h16, hpre⟩
    rw [hbranch.mpr ⟨h95, hpre⟩] at hbits
    rcases siblingSubnet_canonical_or_mapped he hbit with hc | hmapped
    · have hlen : (siblingSubnet e bit).ip.length = 16 := by
        rw [siblingSubnet_ip_length he.block hbit, h16]
      exact absurd (hbits ▸ List.prefix_rfl) (not_mappedBits_isPrefix hc hlen)
    · exact hmapped

theorem encloses_siblingSubnet_iff {e : IPNet} (he : e.Canonical) {bit : ℕ}
    (hbit : bit < e.prefixLen) :
    Encloses (siblingSubnet e bit) ↔
      e.ip.length = 16 ∧ branch e.prefixBits bit <+: mappedParent := by
  have hbits := siblingSubnet_prefixBits he.block hbit
  rcases siblingSubnet_canonical_or_mapped he hbit with hc | hmapped
  · rw [encloses_iff hc, siblingSubnet_ip_length he.block hbit, hbits]
  · -- The mapped block is one bit too long for either side.
    rw [← hbits, hmapped, mappedBlock_prefixBits]
    constructor
    · rintro ⟨hlt, _⟩
      exact absurd hlt (by decide)
    · rintro ⟨_, hpre⟩
      exact absurd hpre.length_le (by simp)

section Subtraction

variable {n e : IPNet} (hn : n.Canonical) (he : e.Canonical)

include hn he

theorem mem_subtractSubnet_iff {s : IPNet} : s ∈ subtractSubnet id id n e ↔
      (IPNet.overlaps n e = true ∧ ∃ bit, n.prefixLen ≤ bit ∧
        bit < e.prefixLen ∧ siblingSubnet e bit = s) ∨
      (IPNet.overlaps n e = false ∧ s = n) := by
  have hid : (id n).Canonical := hn
  rw [subtractSubnet_eq hid he, id_eq]
  cases IPNet.overlaps n e with
  | true =>
      simp only [id_eq, ite_true, List.mem_map, List.mem_range'_1, true_and,
        reduceCtorEq, false_and, or_false]
      refine exists_congr fun bit => ?_
      rw [← and_assoc]
      refine and_congr_left fun _ => ?_
      omega
  | false => simp

theorem subtractSubnet_pairwise : (subtractSubnet id id n e).Pairwise fun s s' =>
      s.Canonical → s'.Canonical →
        ∀ x, ¬ (s.contains x = true ∧ s'.contains x = true) := by
  have hid : (id n).Canonical := hn
  rw [subtractSubnet_eq hid he]
  split
  next =>
    rw [List.pairwise_map]
    have hlt := List.pairwise_lt_range'
      (s := (id n).prefixLen) (n := e.prefixLen - (id n).prefixLen)
    refine hlt.imp_of_mem fun {j k} hj hk hjk hc hc' x hx => ?_
    simp only [List.mem_range'_1, id_eq] at hj hk
    have hroom : ∀ {bit}, bit < e.prefixLen → bit < e.prefixBits.length :=
      fun h => h.trans_eq he.prefixBits_length.symm
    have hxj := ((hc.contains_iff x).mp hx.1).2
    have hxk := ((hc'.contains_iff x).mp hx.2).2
    simp only [id_eq] at hxj hxk
    rw [siblingSubnet_prefixBits he.block (by omega)] at hxj hxk
    exact hjk.ne (branch_prefix_unique (hroom (by omega)) (hroom (by omega))
      hxj hxk)
  next => exact List.pairwise_singleton _ _

theorem contains_of_mem_subtractSubnet {s : IPNet}
    (hs : s ∈ subtractSubnet id id n e) (hc : s.Canonical) {x : IP}
    (hx : s.contains x = true) : n.contains x = true := by
  have hid : IsPiece (id n) := Or.inl hn
  exact ((@exists_mem_subtractSubnet_iff IPNet id id n e (fun _ => rfl) hid
    he x).mp ⟨s, hs, hc, hx⟩).1.2

theorem prefixBits_prefix_of_overlaps (hlt : n.prefixLen ≤ e.prefixLen) :
    IPNet.overlaps n e = true ↔
      n.ip.length = e.ip.length ∧ n.prefixBits <+: e.prefixBits := by
  rw [overlaps_iff_of_le hn he hlt, contains_ip_iff hn he, eq_comm]
  refine and_congr_right fun _ => ⟨fun hpre => ?_, fun hpre =>
    hpre.trans (prefixBits_prefix_bits e)⟩
  refine List.prefix_of_prefix_length_le hpre (prefixBits_prefix_bits e) ?_
  rw [hn.prefixBits_length, he.prefixBits_length]
  exact hlt

/-- The mapped block is a piece exactly when the exception is beside it and
the network has both halves. -/
theorem mappedBlock_mem_subtractSubnet_iff :
    mappedBlock ∈ subtractSubnet id id n e ↔ Encloses n ∧ Beside e := by
  have hne : mappedBlock ≠ n := fun heq =>
    mappedBlock_not_canonical (heq ▸ hn)
  rw [mem_subtractSubnet_iff hn he]
  simp only [hne, and_false, or_false]
  constructor
  · rintro ⟨hover, bit, hge, hlt, heq⟩
    obtain ⟨rfl, hbeside⟩ :=
      (siblingSubnet_eq_mappedBlock_iff he hlt).mp heq
    refine ⟨?_, hbeside⟩
    obtain ⟨hlen, hpre⟩ :=
      (prefixBits_prefix_of_overlaps hn he (by omega)).mp hover
    obtain ⟨h16, hbits⟩ := (beside_iff he).mp hbeside
    refine (encloses_iff hn).mpr ⟨hlen.trans h16, ?_⟩
    apply List.prefix_of_prefix_length_le hpre
      ((List.prefix_append _ _).trans hbits)
    rw [hn.prefixBits_length, mappedParent_length]
    exact hge
  · rintro ⟨hencl, hbeside⟩
    obtain ⟨hlen, hpre⟩ := (encloses_iff hn).mp hencl
    obtain ⟨h16, hbits⟩ := (beside_iff he).mp hbeside
    have hle := hbeside.1
    have hlt := hencl.1
    refine ⟨(prefixBits_prefix_of_overlaps hn he (by omega)).mpr
      ⟨hlen.trans h16.symm, hpre.trans ((List.prefix_append _ _).trans hbits)⟩,
      95, by omega, by omega,
      (siblingSubnet_eq_mappedBlock_iff he (by omega)).mpr ⟨rfl, hbeside⟩⟩

/-- A piece has both halves exactly when the network has and the exception
takes nothing from them. -/
theorem exists_encloses_subtractSubnet_iff :
    (∃ s ∈ subtractSubnet id id n e, Encloses s) ↔
      Encloses n ∧ ¬ (Encloses e ∨ Beside e) := by
  simp only [mem_subtractSubnet_iff hn he]
  cases hover : IPNet.overlaps n e with
  | false =>
      simp only [reduceCtorEq, false_and, true_and, false_or, exists_eq_left]
      refine (and_iff_left_of_imp fun hencl hor => ?_).symm
      obtain ⟨h16, hpre⟩ := (encloses_iff hn).mp hencl
      have hoverlaps : IPNet.overlaps n e = true := by
        rcases hor with hencl' | hbeside
        · exact overlaps_of_common hn he hencl.2 hencl'.2
        · have hle := hbeside.1
          have hlt := hencl.1
          obtain ⟨h16', hbits⟩ := (beside_iff he).mp hbeside
          exact (prefixBits_prefix_of_overlaps hn he (by omega)).mpr
            ⟨h16.trans h16'.symm,
              hpre.trans ((List.prefix_append _ _).trans hbits)⟩
      rw [hover] at hoverlaps
      cases hoverlaps
  | true =>
      simp only [true_and, reduceCtorEq, false_and, or_false]
      rcases le_or_gt n.prefixLen e.prefixLen with hle | hgt
      · obtain ⟨hlen, hpre⟩ :=
          (prefixBits_prefix_of_overlaps hn he hle).mp hover
        have hbranches := exists_branch_iff_leaves (x := mappedParent) hpre
        rw [hn.prefixBits_length, he.prefixBits_length] at hbranches
        constructor
        · rintro ⟨s, ⟨bit, hge, hlt, rfl⟩, hencl⟩
          obtain ⟨h16, hbranch⟩ := (encloses_siblingSubnet_iff he hlt).mp hencl
          obtain ⟨hp, hq, hx⟩ := hbranches.mp ⟨bit, hge, hlt, hbranch⟩
          refine ⟨(encloses_iff hn).mpr ⟨hlen.trans h16, hp⟩, ?_⟩
          rw [← mappedParent_prefix_iff he h16]
          tauto
        · rintro ⟨hencl, hnot⟩
          obtain ⟨h16, hp⟩ := (encloses_iff hn).mp hencl
          have h16' : e.ip.length = 16 := hlen.symm.trans h16
          rw [← mappedParent_prefix_iff he h16', not_or] at hnot
          obtain ⟨bit, hge, hlt, hbranch⟩ := hbranches.mpr ⟨hp, hnot⟩
          exact ⟨_, ⟨bit, hge, hlt, rfl⟩,
            (encloses_siblingSubnet_iff he hlt).mpr ⟨h16', hbranch⟩⟩
      · -- The exception has the whole network, and so both halves with it.
        constructor
        · rintro ⟨s, ⟨bit, hge, hlt, _⟩, _⟩
          omega
        · rintro ⟨hencl, hnot⟩
          rw [overlaps_comm, overlaps_iff_of_le he hn hgt.le] at hover
          have hlt := hencl.1
          exact absurd (Or.inl ⟨by omega,
            contains_of_nested he hn hgt.le hover hencl.2⟩) hnot

end Subtraction

theorem mappedBlock_mem_of_mappedBlock {e : IPNet} (he : e.Canonical) :
    mappedBlock ∈ subtractSubnet id id mappedBlock e ↔
      ¬ e.contains [0, 0, 0, 0] = true := by
  have hcongr : e.contains mappedBlock.ip = e.contains [0, 0, 0, 0] :=
    contains_congr (by decide)
  have hsize : mappedBlock.prefixLen = 96 := by decide
  rcases he.family with h4 | ⟨h16, hnone⟩
  · have hle := he.prefixLen_le
    have hlt : e.prefixLen < mappedBlock.prefixLen := by omega
    change mappedBlock ∈ (if e.prefixLen < mappedBlock.prefixLen then
      if e.contains mappedBlock.ip then [] else [mappedBlock] else _) ↔ _
    rw [if_pos hlt, hcongr]
    split <;> simp_all
  · -- A sixteen byte exception has no mapped address, whatever its length.
    have hmiss : e.contains [0, 0, 0, 0] = false := by
      rw [Bool.eq_false_iff, Ne, he.contains_iff, h16]
      simp [Net.norm, to4, ipv4Len]
    have hmiss' : mappedBlock.contains e.ip = false := by
      have hnumber : (networkNumberAndMask mappedBlock).1.length = 4 := by
        decide
      have hnorm : (to4 e.ip).getD e.ip = e.ip := he.norm_ip
      unfold IPNet.contains
      simp only [hnorm]
      rw [if_pos (by omega)]
    have hne : ipEqual mappedBlock.ip e.ip = false := by
      have hvalid : ValidIP mappedBlock.ip := by decide
      rw [Bool.eq_false_iff, Ne, ipEqual_iff_norm hvalid he.validIP, he.norm_ip]
      intro heq
      rw [← heq] at h16
      exact absurd h16 (by decide)
    simp [subtractSubnet, hcongr, hmiss, hmiss', hne]

theorem eq_mappedBlock_of_mem {s e : IPNet} (he : e.Canonical)
    (hs : s ∈ subtractSubnet id id mappedBlock e) : s = mappedBlock :=
  @subtractSubnet_mapped IPNet id id mappedBlock e rfl he s hs

/-! ## All exceptions of a block -/

/-- The first exception that shares addresses with `::fffe:0:0/95` is beside
the mapped block, and none after it has the address `0.0.0.0`. -/
def uncoversMapped : List IPNet → Bool
  | [] => false
  | e :: except =>
      if Encloses e then false
      else if Beside e then except.all fun e => !e.contains [0, 0, 0, 0]
      else uncoversMapped except

section Excepts

variable {subnets : List IPNet} {e : IPNet}
  (hsubnets : ∀ s ∈ subnets, IsPiece s) (he : e.Canonical)

include hsubnets he

theorem mappedBlock_mem_flatMap_iff :
    mappedBlock ∈ subnets.flatMap (subtractSubnet id id · e) ↔
      (mappedBlock ∈ subnets ∧ ¬ e.contains [0, 0, 0, 0] = true) ∨
        ((∃ s ∈ subnets, Encloses s) ∧ Beside e) := by
  rw [List.mem_flatMap]
  constructor
  · rintro ⟨s, hs, hmem⟩
    rcases hsubnets s hs with hc | rfl
    · obtain ⟨hencl, hbeside⟩ :=
        (mappedBlock_mem_subtractSubnet_iff hc he).mp hmem
      exact Or.inr ⟨⟨s, hs, hencl⟩, hbeside⟩
    · exact Or.inl ⟨hs, (mappedBlock_mem_of_mappedBlock he).mp hmem⟩
  · rintro (⟨hs, hmiss⟩ | ⟨⟨s, hs, hencl⟩, hbeside⟩)
    · exact ⟨_, hs, (mappedBlock_mem_of_mappedBlock he).mpr hmiss⟩
    · refine ⟨s, hs, ?_⟩
      rcases hsubnets s hs with hc | rfl
      · exact (mappedBlock_mem_subtractSubnet_iff hc he).mpr ⟨hencl, hbeside⟩
      · exact absurd hencl (by decide)

theorem exists_encloses_flatMap_iff :
    (∃ s ∈ subnets.flatMap (subtractSubnet id id · e), Encloses s) ↔
      (∃ s ∈ subnets, Encloses s) ∧ ¬ (Encloses e ∨ Beside e) := by
  simp only [List.mem_flatMap]
  constructor
  · rintro ⟨s, ⟨n, hn, hs⟩, hencl⟩
    rcases hsubnets n hn with hc | rfl
    · obtain ⟨henclN, hnot⟩ :=
        (exists_encloses_subtractSubnet_iff hc he).mp ⟨s, hs, hencl⟩
      exact ⟨⟨n, hn, henclN⟩, hnot⟩
    · rw [eq_mappedBlock_of_mem he hs] at hencl
      exact absurd hencl (by decide)
  · rintro ⟨⟨n, hn, hencl⟩, hnot⟩
    rcases hsubnets n hn with hc | rfl
    · obtain ⟨s, hs, henclS⟩ :=
        (exists_encloses_subtractSubnet_iff hc he).mpr ⟨hencl, hnot⟩
      exact ⟨s, ⟨n, hn, hs⟩, henclS⟩
    · exact absurd hencl (by decide)

theorem flatMap_subtractSubnet_pairwise
    (hpairwise : subnets.Pairwise fun s s' => s.Canonical → s'.Canonical →
      ∀ x, ¬ (s.contains x = true ∧ s'.contains x = true)) :
    (subnets.flatMap (subtractSubnet id id · e)).Pairwise fun s s' =>
      s.Canonical → s'.Canonical →
        ∀ x, ¬ (s.contains x = true ∧ s'.contains x = true) := by
  rw [List.pairwise_flatMap]
  constructor
  · intro n hn
    rcases hsubnets n hn with hc | rfl
    · exact subtractSubnet_pairwise hc he
    · apply List.pairwise_of_forall_mem_list
      intro s hs s' _ hcanonical
      rw [eq_mappedBlock_of_mem he hs] at hcanonical
      exact absurd hcanonical mappedBlock_not_canonical
  · -- A canonical piece lies in its network, and the networks are disjoint.
    have hinside : ∀ n ∈ subnets, ∀ s ∈ subtractSubnet id id n e,
        s.Canonical → n.Canonical ∧
          ∀ x, s.contains x = true → n.contains x = true := by
      intro n hn s hs hcanonical
      rcases hsubnets n hn with hc | rfl
      · exact ⟨hc, fun x hx =>
          contains_of_mem_subtractSubnet hc he hs hcanonical hx⟩
      · rw [eq_mappedBlock_of_mem he hs] at hcanonical
        exact absurd hcanonical mappedBlock_not_canonical
    refine hpairwise.imp_of_mem ?_
    intro n n' hn hn' hdisjoint s hs s' hs' hc hc' x hx
    obtain ⟨hcN, hsub⟩ := hinside n hn s hs hc
    obtain ⟨hcN', hsub'⟩ := hinside n' hn' s' hs' hc'
    exact hdisjoint hcN hcN' x ⟨hsub x hx.1, hsub' x hx.2⟩

end Excepts

theorem flatMap_subtractSubnet_isPiece {subnets : List IPNet} {e : IPNet}
    (hsubnets : ∀ s ∈ subnets, IsPiece s) (he : e.Canonical) :
    ∀ s ∈ subnets.flatMap (subtractSubnet id id · e), IsPiece s :=
  List.forall_mem_flatMap.mpr fun n hn =>
    @subtractSubnet_isPiece IPNet id id n e (fun _ => rfl) (hsubnets n hn) he

theorem mappedBlock_mem_subtractExcepts_iff {subnets except : List IPNet}
    (hsubnets : ∀ s ∈ subnets, IsPiece s)
    (hexcept : ∀ e ∈ except, e.Canonical) :
    mappedBlock ∈ subtractExcepts id id subnets except ↔ (mappedBlock ∈ subnets ∧
        ∀ e ∈ except, ¬ e.contains [0, 0, 0, 0] = true) ∨
      ((∃ s ∈ subnets, Encloses s) ∧ uncoversMapped except = true) := by
  induction except generalizing subnets with
  | nil => simp [subtractExcepts, uncoversMapped]
  | cons e except ih =>
      rw [List.forall_mem_cons] at hexcept
      change mappedBlock ∈ subtractExcepts id id
        (subnets.flatMap (subtractSubnet id id · e)) except ↔ _
      rw [ih (flatMap_subtractSubnet_isPiece hsubnets hexcept.1) hexcept.2,
        mappedBlock_mem_flatMap_iff hsubnets hexcept.1,
        exists_encloses_flatMap_iff hsubnets hexcept.1, List.forall_mem_cons]
      by_cases hencl : Encloses e
      · have hbeside : ¬ Beside e := fun h => by
          have := hencl.1
          have := h.1
          omega
        simp only [uncoversMapped, hencl, hbeside]
        simp only [ite_true]
        tauto
      · by_cases hbeside : Beside e
        · have hall : uncoversMapped (e :: except) = true ↔
              ∀ e ∈ except, ¬ e.contains [0, 0, 0, 0] = true := by
            simp [uncoversMapped, hencl, hbeside]
          simp only [hall, hencl, hbeside, or_true, and_true, not_true,
            and_false, false_and, or_false, or_and_right, and_assoc]
        · have hrest : uncoversMapped (e :: except) = uncoversMapped except := by
            simp [uncoversMapped, hencl, hbeside]
          rw [hrest]
          tauto

theorem subtractExcepts_pairwise {subnets except : List IPNet}
    (hsubnets : ∀ s ∈ subnets, IsPiece s)
    (hexcept : ∀ e ∈ except, e.Canonical)
    (hpairwise : subnets.Pairwise fun s s' => s.Canonical → s'.Canonical →
      ∀ x, ¬ (s.contains x = true ∧ s'.contains x = true)) :
    (subtractExcepts id id subnets except).Pairwise fun s s' =>
      s.Canonical → s'.Canonical →
        ∀ x, ¬ (s.contains x = true ∧ s'.contains x = true) := by
  induction except generalizing subnets with
  | nil => exact hpairwise
  | cons e except ih =>
      rw [List.forall_mem_cons] at hexcept
      exact ih (flatMap_subtractSubnet_isPiece hsubnets hexcept.1) hexcept.2
        (flatMap_subtractSubnet_pairwise hsubnets hexcept.1 hpairwise)

theorem remains_iff {network : IPNet} {except : List IPNet}
    (hnetwork : network.Canonical) (hexcept : ∀ e ∈ except, e.Canonical) :
    Remains network except (subtractExcepts id id [network] except) ↔
      ¬ (Encloses network ∧ uncoversMapped except = true) := by
  have hpieces : ∀ s ∈ [network], IsPiece s := by
    intro s hs
    exact Or.inl (List.mem_singleton.mp hs ▸ hnetwork)
  have hne : mappedBlock ≠ network := fun heq =>
    mappedBlock_not_canonical (heq ▸ hnetwork)
  have hmapped := mappedBlock_mem_subtractExcepts_iff hpieces hexcept
  simp only [List.mem_singleton, hne, false_and, false_or, exists_eq_left]
    at hmapped
  rw [← hmapped]
  constructor
  · intro h hmem
    exact mappedBlock_not_canonical (h.canonical _ hmem)
  · intro hnot
    have hcanonical : ∀ s ∈ subtractExcepts id id [network] except,
        s.Canonical := by
      intro s hs
      rcases @subtractExcepts_isPiece IPNet id id _ _ (fun _ => rfl) hpieces
        hexcept s hs with hc | heq
      · exact hc
      · exact absurd (heq ▸ hs) hnot
    refine ⟨hcanonical, ?_, fun x => ?_⟩
    · refine (subtractExcepts_pairwise hpieces hexcept
        (List.pairwise_singleton _ _)).imp_of_mem ?_
      intro s s' hs hs' hdisjoint
      exact hdisjoint (hcanonical s hs) (hcanonical s' hs')
    · have hiff := @exists_mem_subtractExcepts_iff IPNet id id _ _
        (fun _ => rfl) hpieces hexcept x
      simp only [id_eq, List.mem_singleton, exists_eq_left, hnetwork,
        true_and] at hiff
      rw [← hiff]
      refine exists_congr fun s => and_congr_right fun hs => ?_
      simp [hcanonical s hs]

end ContivVPP.Configurator
