import ContivVPP.ConfiguratorModel

/-!
# Subtracting subnets

`subtractSubnet(net1, net2)` lists networks that cover what `net1` has and
`net2` has not.  The function works on pointers: it returns `net1` itself when
nothing has to be cut out, and freshly allocated networks otherwise.  The
definition is therefore generic in the type of references, with `load` reading
the network behind a reference and `alloc` making a new one.
-/

namespace ContivVPP.Configurator

open Net BitPrefix ByteBits

section References

variable {ρ : Type} (load : ρ → IPNet) (alloc : IPNet → ρ)

-- The subnet of the loop over `bit`: the network around `net2` with one more
-- bit than the ones before, and with that bit flipped.
def siblingSubnet (net2 : IPNet) (bit : ℕ) : IPNet :=
  let m := cidrMask (bit + 1) (8 * net2.mask.length)
  ⟨flipBit (ipMask net2.ip m) bit, m⟩

def subtractSubnet (net1 : ρ) (net2 : IPNet) : List ρ :=
  let net1MaskSize := (maskSize (load net1).mask).1
  let net2MaskSize := (maskSize net2.mask).1
  if net2MaskSize < net1MaskSize then
    if net2.contains (load net1).ip then [] else [net1]
  else if net1MaskSize = net2MaskSize then
    if ipEqual (load net1).ip net2.ip then [] else [net1]
  else if (load net1).contains net2.ip then
    (List.range' net1MaskSize (net2MaskSize - net1MaskSize)).map
      fun bit => alloc (siblingSubnet net2 bit)
  else [net1]

def subtractExcepts (subnets : List ρ) (except : List IPNet) : List ρ :=
  except.foldl
    (fun subnets net2 => subnets.flatMap (subtractSubnet load alloc · net2))
    subnets

end References

/-! ## Nested and disjoint networks -/

theorem contains_ip_iff {n n' : IPNet} (h : n.Canonical) (h' : n'.Canonical) :
    n.contains n'.ip = true ↔
      n'.ip.length = n.ip.length ∧ n.prefixBits <+: bits n'.ip := by
  rw [h.contains_iff, h'.norm_ip]

theorem prefixBits_prefix_bits (n : IPNet) : n.prefixBits <+: bits n.ip :=
  List.take_prefix _ _

section

variable {n n' : IPNet} (h : n.Canonical) (h' : n'.Canonical)
  (hle : n.prefixLen ≤ n'.prefixLen)
include h h' hle

theorem contains_ip_of_narrower (hcontains : n'.contains n.ip = true) :
    n.contains n'.ip = true := by
  rw [contains_ip_iff h' h] at hcontains
  rw [contains_ip_iff h h']
  refine ⟨hcontains.1.symm, ?_⟩
  have hpre : n.prefixBits <+: n'.prefixBits :=
    List.prefix_of_prefix_length_le (prefixBits_prefix_bits n)
      hcontains.2 (by rw [h.prefixBits_length, h'.prefixBits_length]; exact hle)
  exact hpre.trans (prefixBits_prefix_bits n')

theorem contains_of_nested (hcontains : n.contains n'.ip = true) {x : IP}
    (hx : n'.contains x = true) : n.contains x = true := by
  rw [contains_ip_iff h h'] at hcontains
  rw [h'.contains_iff] at hx
  rw [h.contains_iff]
  refine ⟨hx.1.trans hcontains.1, ?_⟩
  have hpre : n.prefixBits <+: n'.prefixBits :=
    List.prefix_of_prefix_length_le hcontains.2 (prefixBits_prefix_bits n')
      (by rw [h.prefixBits_length, h'.prefixBits_length]; exact hle)
  exact hpre.trans hx.2

theorem contains_ip_of_common {x : IP} (hx : n.contains x = true)
    (hx' : n'.contains x = true) :
    n.contains n'.ip = true := by
  rw [h.contains_iff] at hx
  rw [h'.contains_iff] at hx'
  rw [contains_ip_iff h h']
  refine ⟨hx'.1.symm.trans hx.1, ?_⟩
  have hpre : n.prefixBits <+: n'.prefixBits :=
    List.prefix_of_prefix_length_le hx.2 hx'.2
      (by rw [h.prefixBits_length, h'.prefixBits_length]; exact hle)
  exact hpre.trans (prefixBits_prefix_bits n')

end

def IPNet.overlaps (n n' : IPNet) : Bool :=
  n.contains n'.ip || n'.contains n.ip

theorem overlaps_iff_of_le {n n' : IPNet} (h : n.Canonical)
    (h' : n'.Canonical) (hle : n.prefixLen ≤ n'.prefixLen) :
    IPNet.overlaps n n' = true ↔ n.contains n'.ip = true := by
  simp only [IPNet.overlaps, Bool.or_eq_true]
  exact ⟨fun hor => hor.elim id (contains_ip_of_narrower h h' hle), Or.inl⟩

theorem overlaps_comm (n n' : IPNet) :
    IPNet.overlaps n n' = IPNet.overlaps n' n := by
  simp [IPNet.overlaps, Bool.or_comm]

theorem overlaps_of_common {n n' : IPNet} (h : n.Canonical)
    (h' : n'.Canonical) {x : IP} (hx : n.contains x = true)
    (hx' : n'.contains x = true) : IPNet.overlaps n n' = true := by
  rcases le_total n.prefixLen n'.prefixLen with hle | hle
  · rw [overlaps_iff_of_le h h' hle]
    exact contains_ip_of_common h h' hle hx hx'
  · rw [overlaps_comm, overlaps_iff_of_le h' h hle]
    exact contains_ip_of_common h' h hle hx' hx

theorem ipEqual_iff_contains {n n' : IPNet} (h : n.Canonical)
    (h' : n'.Canonical) (hsize : n.prefixLen = n'.prefixLen) :
    ipEqual n.ip n'.ip = true ↔ n.contains n'.ip = true := by
  rw [ipEqual_iff_norm h.validIP h'.validIP, h.norm_ip, h'.norm_ip,
    contains_ip_iff h h']
  constructor
  · intro heq
    rw [← heq]
    exact ⟨rfl, prefixBits_prefix_bits n⟩
  · rintro ⟨hlen, hpre⟩
    apply h.ip_eq_of_prefixBits_eq h' hlen.symm hsize
    rw [List.prefix_iff_eq_take, h.prefixBits_length, hsize] at hpre
    exact hpre

/-! ## The subnets around a network -/

section

variable {n : IPNet} (h : n.Block) {bit : ℕ} (hbit : bit < n.prefixLen)
include h hbit

theorem siblingSubnet_eq : siblingSubnet n bit =
      ⟨flipBit (land n.ip (onesMask (bit + 1) n.ip.length)) bit,
        onesMask (bit + 1) n.ip.length⟩ := by
  have hle := h.prefixLen_le
  have hlen := h.length
  have hmask : ipMask n.ip (onesMask (bit + 1) n.ip.length) =
      land n.ip (onesMask (bit + 1) n.ip.length) := by
    rcases hlen with h4 | h16
    · simp [ipMask, h4, ipv4Len, ipv6Len]
    · simp [ipMask, h16, ipv4Len, ipv6Len]
  rw [siblingSubnet, h.mask_length]
  simp only [cidrMask_eq_onesMask hlen (by omega : bit + 1 ≤ _), hmask]

theorem siblingSubnet_prefixLen : (siblingSubnet n bit).prefixLen = bit + 1 := by
  have hle := h.prefixLen_le
  rw [siblingSubnet_eq h hbit, IPNet.prefixLen, maskSize_onesMask (by omega)]

theorem siblingSubnet_ip_length :
    (siblingSubnet n bit).ip.length = n.ip.length := by
  simp [siblingSubnet_eq h hbit]

theorem bits_siblingSubnet_ip : bits (siblingSubnet n bit).ip =
      branch (bits n.ip) bit ++
        List.replicate (8 * n.ip.length - (bit + 1)) false := by
  have hle := h.prefixLen_le
  have hroom : bit < ((bits n.ip).take (bit + 1)).length := by
    simp
    omega
  rw [siblingSubnet_eq h hbit]
  simp only
  rw [bits_flipBit, bits_land_onesMask (by omega), modify_append_of_lt hroom]
  rfl

theorem siblingSubnet_prefixBits :
    (siblingSubnet n bit).prefixBits = branch n.prefixBits bit := by
  have hle := h.prefixLen_le
  have hlen : (branch (bits n.ip) bit).length = bit + 1 :=
    branch_length (by simp; omega)
  have htake : branch n.prefixBits bit = branch (bits n.ip) bit := by
    unfold branch IPNet.prefixBits
    rw [List.take_take, min_eq_left (by omega)]
  rw [IPNet.prefixBits, siblingSubnet_prefixLen h hbit,
    bits_siblingSubnet_ip h hbit, htake, List.take_left' hlen]

theorem siblingSubnet_hostZero :
    land (siblingSubnet n bit).ip (siblingSubnet n bit).mask =
      (siblingSubnet n bit).ip := by
  have hle := h.prefixLen_le
  have hlen := siblingSubnet_ip_length h hbit
  have hmask : (siblingSubnet n bit).mask =
      onesMask (bit + 1) (siblingSubnet n bit).ip.length := by
    rw [hlen, siblingSubnet_eq h hbit]
  have hbranch : (branch (bits n.ip) bit).length = bit + 1 :=
    branch_length (by simp; omega)
  apply bits_injective
  rw [hmask, bits_land_onesMask (by omega), bits_siblingSubnet_ip h hbit,
    List.take_left' hbranch, hlen]

theorem siblingSubnet_block : (siblingSubnet n bit).Block := by
  have hle := h.prefixLen_le
  have hlen := siblingSubnet_ip_length h hbit
  have hones := siblingSubnet_prefixLen h hbit
  refine ⟨hlen ▸ h.length, by omega, ?_, siblingSubnet_hostZero h hbit⟩
  rw [hones, hlen, siblingSubnet_eq h hbit]

end

/-- The block of all IPv4-mapped addresses.  `Contains` reads it as the
network of all IPv4 addresses. -/
def mappedBlock : IPNet :=
  ⟨v4InV6Prefix ++ [0, 0, 0, 0], onesMask 96 16⟩

theorem mappedBlock_not_canonical : ¬ mappedBlock.Canonical := by
  intro h
  rcases h.family with h4 | ⟨_, hnone⟩
  · exact absurd h4 (by decide)
  · exact absurd hnone (by decide)

theorem bits_take_of_mapped {ip : IP} (hto4 : ip.take 12 = v4InV6Prefix) :
    (bits ip).take 96 = bits v4InV6Prefix := by
  rw [← hto4, bits_take]

-- Only the branch at depth 95 can end up in the mapped block: a shorter one
-- has a zero among the sixteen ones, and one below it would start with the
-- first 96 bits of the canonical network it branches off from.
theorem siblingSubnet_eq_mappedBlock {n : IPNet} (h : n.Canonical)
    {bit : ℕ} (hbit : bit < n.prefixLen) (h16 : n.ip.length = 16)
    (hnone : to4 n.ip = none)
    (hmapped : (siblingSubnet n bit).ip.take 12 = v4InV6Prefix) :
    siblingSubnet n bit = mappedBlock := by
  have hle := h.prefixLen_le
  have hbits := bits_siblingSubnet_ip h.block hbit
  have hbranch : (branch (bits n.ip) bit).length = bit + 1 :=
    branch_length (by simp; omega)
  have htake := bits_take_of_mapped hmapped
  have hbit95 : bit = 95 := by
    rcases lt_trichotomy bit 95 with hlt | heq | hgt
    · have hone : (bits (siblingSubnet n bit).ip)[95]? = some true := by
        have hget : ((bits (siblingSubnet n bit).ip).take 96)[95]? =
            some true := by
          rw [htake]
          decide
        simpa using hget
      have hzero : (bits (siblingSubnet n bit).ip)[95]? = some false := by
        rw [hbits, List.getElem?_append_right (by omega), hbranch]
        rw [List.getElem?_replicate, if_pos (by omega)]
      rw [hzero] at hone
      simp at hone
    · exact heq
    · have hpre : (branch (bits n.ip) bit).take 96 = (bits n.ip).take 96 := by
        unfold branch
        apply List.ext_getElem?
        intro i
        by_cases hi : i < 96
        · rw [List.getElem?_take_of_lt hi, List.getElem?_take_of_lt hi,
            List.getElem?_modify_ne _ _ (by omega),
            List.getElem?_take_of_lt (by omega)]
        · simp [hi]
      have hip : n.ip.take 12 = v4InV6Prefix := by
        apply bits_injective
        rw [bits_take, ← hpre, ← htake, hbits,
          List.take_append_of_le_length (by omega)]
      simp [to4, ipv4Len, ipv6Len, h16, hip] at hnone
  subst bit
  have hip : (siblingSubnet n 95).ip = v4InV6Prefix ++ [0, 0, 0, 0] := by
    apply bits_injective
    have hhead : branch (bits n.ip) 95 = bits v4InV6Prefix := by
      rw [← htake, hbits, List.take_left' hbranch]
    rw [hbits, hhead, h16]
    decide
  have hmask : (siblingSubnet n 95).mask = onesMask 96 16 := by
    rw [siblingSubnet_eq h.block hbit, h16]
  calc siblingSubnet n 95 =
        ⟨(siblingSubnet n 95).ip, (siblingSubnet n 95).mask⟩ := rfl
    _ = mappedBlock := by rw [hip, hmask]; rfl

theorem siblingSubnet_canonical_or_mapped {n : IPNet} (h : n.Canonical)
    {bit : ℕ} (hbit : bit < n.prefixLen) :
    (siblingSubnet n bit).Canonical ∨ siblingSubnet n bit = mappedBlock := by
  have hlen := siblingSubnet_ip_length h.block hbit
  have hblock := siblingSubnet_block h.block hbit
  have hcanonical : ((siblingSubnet n bit).ip.length = 4 ∨
        ((siblingSubnet n bit).ip.length = 16 ∧
          to4 (siblingSubnet n bit).ip = none)) →
      (siblingSubnet n bit).Canonical := by
    intro hfamily
    exact ⟨hfamily, hblock.prefixLen_le, hblock.mask_eq, hblock.hostZero⟩
  rcases h.family with h4 | ⟨h16, hnone⟩
  · exact Or.inl (hcanonical (Or.inl (by omega)))
  · by_cases hmapped : (siblingSubnet n bit).ip.take 12 = v4InV6Prefix
    · exact Or.inr (siblingSubnet_eq_mappedBlock h hbit h16 hnone hmapped)
    · refine Or.inl (hcanonical (Or.inr ⟨by omega, ?_⟩))
      simp [to4, ipv4Len, ipv6Len, hlen, h16, hmapped]

/-! ## What subtraction leaves -/

section Subtraction

variable {ρ : Type} {load : ρ → IPNet} {alloc : IPNet → ρ}

variable {net1 : ρ} {net2 : IPNet}

/-- On canonical networks the three branches of the source are one: the
network is kept if it does not overlap with the exception, and is replaced by
the subnets around the exception otherwise. -/
theorem subtractSubnet_eq (h1 : (load net1).Canonical) (h2 : net2.Canonical) :
    subtractSubnet load alloc net1 net2 =
      if IPNet.overlaps (load net1) net2 then
        (List.range' (load net1).prefixLen
          (net2.prefixLen - (load net1).prefixLen)).map
            fun bit => alloc (siblingSubnet net2 bit)
      else [net1] := by
  change (if net2.prefixLen < (load net1).prefixLen then _
    else if (load net1).prefixLen = net2.prefixLen then _ else _) = _
  rcases lt_trichotomy (load net1).prefixLen net2.prefixLen with
    hlt | heq | hgt
  · rw [if_neg (by omega), if_neg (by omega)]
    have hover := overlaps_iff_of_le h1 h2 hlt.le
    by_cases hcontains : (load net1).contains net2.ip = true
    · rw [if_pos hcontains, if_pos (hover.mpr hcontains)]
      rfl
    · rw [if_neg hcontains, if_neg (mt hover.mp hcontains)]
  · rw [if_neg (by omega), if_pos heq]
    have hover := overlaps_iff_of_le h1 h2 heq.le
    have hequal := ipEqual_iff_contains h1 h2 heq
    by_cases hcontains : (load net1).contains net2.ip = true
    · rw [if_pos (hequal.mpr hcontains), if_pos (hover.mpr hcontains), heq]
      simp
    · rw [if_neg (mt hequal.mp hcontains), if_neg (mt hover.mp hcontains)]
  · rw [if_pos hgt]
    have hover := overlaps_iff_of_le h2 h1 hgt.le
    rw [overlaps_comm] at hover
    have hzero : net2.prefixLen - (load net1).prefixLen = 0 := by omega
    by_cases hcontains : net2.contains (load net1).ip = true
    · rw [if_pos hcontains, if_pos (hover.mpr hcontains), hzero]
      simp
    · rw [if_neg hcontains, if_neg (mt hover.mp hcontains)]

theorem norm_take_ne_mapped {x : IP} (hlen : (norm x).length = 16) :
    (norm x).take 12 ≠ v4InV6Prefix := by
  intro hmapped
  cases hto4 : to4 x with
  | some y =>
      have hy := to4_length hto4
      simp only [Net.norm, hto4, Option.getD_some] at hlen
      omega
  | none =>
      simp only [Net.norm, hto4, Option.getD_none] at hlen hmapped
      simp [to4, ipv4Len, ipv6Len, hlen, hmapped] at hto4

-- The mapped block among the pieces does not count here: it contains no
-- address of the family it was cut out of.
theorem exists_sibling_contains_iff {n n' : IPNet} (h : n.Canonical)
    (h' : n'.Canonical) (hle : n.prefixLen ≤ n'.prefixLen)
    (hcontains : n.contains n'.ip = true) (x : IP) :
    (∃ bit, n.prefixLen ≤ bit ∧ bit < n'.prefixLen ∧
      (siblingSubnet n' bit).Canonical ∧
      (siblingSubnet n' bit).contains x = true) ↔
      n.contains x = true ∧ ¬ n'.contains x = true := by
  have hip := (contains_ip_iff h h').mp hcontains
  have hpre : n.prefixBits <+: n'.prefixBits :=
    List.prefix_of_prefix_length_le hip.2 (prefixBits_prefix_bits n')
      (by rw [h.prefixBits_length, h'.prefixBits_length]; exact hle)
  have hbranches : (norm x).length = n'.ip.length →
      ((∃ bit, n.prefixLen ≤ bit ∧ bit < n'.prefixLen ∧
        branch n'.prefixBits bit <+: bits (norm x)) ↔
        n.prefixBits <+: bits (norm x) ∧ ¬ n'.prefixBits <+: bits (norm x)) := by
    intro hlen
    have hroom : n'.prefixBits.length ≤ (bits (norm x)).length := by
      rw [h'.prefixBits_length, bits_length, hlen]
      exact h'.prefixLen_le
    simpa only [h.prefixBits_length, h'.prefixBits_length] using
      exists_branch_iff hpre hroom
  rw [h.contains_iff, h'.contains_iff]
  constructor
  · rintro ⟨bit, hge, hlt, hcanonical, hx⟩
    rw [hcanonical.contains_iff, siblingSubnet_ip_length h'.block hlt,
      siblingSubnet_prefixBits h'.block hlt] at hx
    have hsplit := (hbranches hx.1).mp ⟨bit, hge, hlt, hx.2⟩
    exact ⟨⟨hx.1.trans hip.1, hsplit.1⟩, fun hx' => hsplit.2 hx'.2⟩
  · rintro ⟨⟨hlen, hx⟩, hmiss⟩
    have hlen' : (norm x).length = n'.ip.length := hlen.trans hip.1.symm
    obtain ⟨bit, hge, hlt, hbranch⟩ := (hbranches hlen').mpr
      ⟨hx, fun hx' => hmiss ⟨hlen', hx'⟩⟩
    have hcanonical : (siblingSubnet n' bit).Canonical := by
      rcases siblingSubnet_canonical_or_mapped h' hlt with hc | hmapped
      · exact hc
      · exfalso
        have h16 : (norm x).length = 16 := by
          rw [hlen', ← siblingSubnet_ip_length h'.block hlt, hmapped]
          rfl
        have hbits : (bits (norm x)).take 96 = bits v4InV6Prefix := by
          have hp := siblingSubnet_prefixBits h'.block hlt
          rw [← hp, hmapped, List.prefix_iff_eq_take] at hbranch
          rw [show mappedBlock.prefixBits = bits v4InV6Prefix by decide]
            at hbranch
          exact hbranch.symm
        apply norm_take_ne_mapped h16
        apply bits_injective
        rw [bits_take, ← hbits]
    refine ⟨bit, hge, hlt, hcanonical, ?_⟩
    rw [hcanonical.contains_iff, siblingSubnet_ip_length h'.block hlt,
      siblingSubnet_prefixBits h'.block hlt]
    exact ⟨hlen', hbranch⟩

/-- A canonical network, or the one block of mapped addresses that can be
left over from an IPv6 network. -/
def IsPiece (n : IPNet) : Prop :=
  n.Canonical ∨ n = mappedBlock

theorem subtractSubnet_mapped (h1 : load net1 = mappedBlock)
    (h2 : net2.Canonical) :
    ∀ s ∈ subtractSubnet load alloc net1 net2, s = net1 := by
  have hsize : (load net1).prefixLen = 96 := by
    rw [h1]
    decide
  have hmiss : 96 < net2.prefixLen → mappedBlock.contains net2.ip = false := by
    intro hlong
    have hle := h2.prefixLen_le
    have h16 : net2.ip.length = 16 := by
      rcases h2.family with h4 | h16
      · omega
      · exact h16.1
    have hnumber : (networkNumberAndMask mappedBlock).1.length = 4 := by
      decide
    have hnorm : ((to4 net2.ip).getD net2.ip) = net2.ip := h2.norm_ip
    unfold IPNet.contains
    simp only [hnorm]
    rw [if_pos (by omega)]
  intro s hs
  change s ∈ (if net2.prefixLen < (load net1).prefixLen then _
    else if (load net1).prefixLen = net2.prefixLen then _ else _) at hs
  split at hs
  next =>
    split at hs
    next => simp at hs
    next => simpa using hs
  next hge =>
    split at hs
    next =>
      split at hs
      next => simp at hs
      next => simpa using hs
    next hne =>
      rw [h1, if_neg (by simpa using hmiss (by omega))] at hs
      simpa using hs

variable {subnets : List ρ} {except : List IPNet}

theorem forall_mem_subtractExcepts {P : ρ → Prop}
    (hsubnets : ∀ s ∈ subnets, P s) (hstep : ∀ e ∈ except, ∀ net1, P net1 →
      ∀ s ∈ subtractSubnet load alloc net1 e, P s) :
    ∀ s ∈ subtractExcepts load alloc subnets except, P s := by
  induction except generalizing subnets with
  | nil => exact hsubnets
  | cons e except ih =>
      rw [List.forall_mem_cons] at hstep
      exact ih (List.forall_mem_flatMap.mpr fun net1 hnet1 =>
        hstep.1 net1 (hsubnets net1 hnet1)) hstep.2

section Loads

variable (hload : ∀ n, load (alloc n) = n)

include hload

theorem subtractSubnet_block (h1 : (load net1).Block) (h2 : net2.Block) :
    ∀ s ∈ subtractSubnet load alloc net1 net2, (load s).Block := by
  have hself : ∀ s ∈ [net1], (load s).Block := by
    intro s hs
    rw [List.mem_singleton.mp hs]
    exact h1
  intro s hs
  unfold subtractSubnet at hs
  simp only at hs
  split_ifs at hs
  · cases hs
  · exact hself s hs
  · cases hs
  · exact hself s hs
  · simp only [List.mem_map, List.mem_range'_1] at hs
    obtain ⟨bit, hbit, rfl⟩ := hs
    rw [hload]
    refine siblingSubnet_block h2 ?_
    change bit < (maskSize net2.mask).1
    omega
  · exact hself s hs

theorem subtractSubnet_isPiece (h1 : IsPiece (load net1)) (h2 : net2.Canonical) :
    ∀ s ∈ subtractSubnet load alloc net1 net2, IsPiece (load s) := by
  intro s hs
  rcases h1 with h1 | h1
  · rw [subtractSubnet_eq h1 h2] at hs
    split at hs
    next =>
      simp only [List.mem_map, List.mem_range'_1] at hs
      obtain ⟨bit, hbit, rfl⟩ := hs
      rw [hload]
      exact siblingSubnet_canonical_or_mapped h2 (by omega)
    next =>
      rw [List.mem_singleton] at hs
      exact hs ▸ Or.inl h1
  · rw [subtractSubnet_mapped h1 h2 s hs]
    exact Or.inr h1

theorem exists_mem_subtractSubnet_iff (h1 : IsPiece (load net1))
    (h2 : net2.Canonical) (x : IP) :
    (∃ s ∈ subtractSubnet load alloc net1 net2,
      (load s).Canonical ∧ (load s).contains x = true) ↔
      ((load net1).Canonical ∧ (load net1).contains x = true) ∧
        ¬ net2.contains x = true := by
  rcases h1 with h1 | h1
  · rw [subtractSubnet_eq h1 h2]
    simp only [h1, true_and]
    by_cases hover : IPNet.overlaps (load net1) net2 = true
    · rw [if_pos hover]
      simp only [List.mem_map, List.mem_range'_1, exists_exists_and_eq_and, hload]
      rcases le_total (load net1).prefixLen net2.prefixLen with hle | hle
      · have hcontains := (overlaps_iff_of_le h1 h2 hle).mp hover
        rw [← exists_sibling_contains_iff h1 h2 hle hcontains x]
        constructor
        · rintro ⟨bit, ⟨hge, hlt⟩, hbit⟩
          exact ⟨bit, hge, by omega, hbit⟩
        · rintro ⟨bit, hge, hlt, hbit⟩
          exact ⟨bit, ⟨hge, by omega⟩, hbit⟩
      · -- The exception covers the whole network.
        rw [overlaps_comm, overlaps_iff_of_le h2 h1 hle] at hover
        constructor
        · rintro ⟨bit, hbit, _⟩
          omega
        · rintro ⟨hx, hmiss⟩
          exact absurd (contains_of_nested h2 h1 hle hover hx) hmiss
    · rw [if_neg hover]
      simp only [List.mem_singleton, exists_eq_left, h1, true_and]
      exact ⟨fun hx => ⟨hx, fun hx' =>
        hover (overlaps_of_common h1 h2 hx hx')⟩, fun hx => hx.1⟩
  · have hnot : ¬ (load net1).Canonical := by
      rw [h1]
      exact mappedBlock_not_canonical
    constructor
    · rintro ⟨s, hs, hcanonical, _⟩
      rw [subtractSubnet_mapped h1 h2 s hs] at hcanonical
      exact absurd hcanonical hnot
    · rintro ⟨⟨hcanonical, _⟩, _⟩
      exact absurd hcanonical hnot

theorem map_load_subtractSubnet (net1 : ρ) (net2 : IPNet) :
    (subtractSubnet load alloc net1 net2).map load =
      subtractSubnet id id (load net1) net2 := by
  unfold subtractSubnet
  simp only [id_eq]
  split_ifs <;> simp [hload]

theorem map_load_subtractExcepts (subnets : List ρ) (except : List IPNet) :
    (subtractExcepts load alloc subnets except).map load =
      subtractExcepts id id (subnets.map load) except := by
  induction except generalizing subnets with
  | nil => rfl
  | cons e except ih =>
      simp only [subtractExcepts, List.foldl_cons] at ih ⊢
      rw [ih, List.map_flatMap, List.flatMap_map]
      simp only [map_load_subtractSubnet hload]

/-! ## All exceptions of a block -/

theorem subtractExcepts_block (hsubnets : ∀ s ∈ subnets, (load s).Block)
    (hexcept : ∀ e ∈ except, e.Block) :
    ∀ s ∈ subtractExcepts load alloc subnets except, (load s).Block :=
  forall_mem_subtractExcepts hsubnets fun e he _ hnet1 =>
    subtractSubnet_block hload hnet1 (hexcept e he)

theorem subtractExcepts_isPiece (hsubnets : ∀ s ∈ subnets, IsPiece (load s))
    (hexcept : ∀ e ∈ except, e.Canonical) :
    ∀ s ∈ subtractExcepts load alloc subnets except, IsPiece (load s) :=
  forall_mem_subtractExcepts hsubnets fun e he _ hnet1 =>
    subtractSubnet_isPiece hload hnet1 (hexcept e he)

theorem exists_mem_subtractExcepts_iff
    (hsubnets : ∀ s ∈ subnets, IsPiece (load s))
    (hexcept : ∀ e ∈ except, e.Canonical) (x : IP) :
    (∃ s ∈ subtractExcepts load alloc subnets except,
      (load s).Canonical ∧ (load s).contains x = true) ↔
      (∃ s ∈ subnets, (load s).Canonical ∧ (load s).contains x = true) ∧
        ∀ e ∈ except, ¬ e.contains x = true := by
  induction except generalizing subnets with
  | nil => simp [subtractExcepts]
  | cons e except ih =>
      have he := hexcept e List.mem_cons_self
      have hpieces : ∀ s ∈ subnets.flatMap
          (subtractSubnet load alloc · e), IsPiece (load s) :=
        List.forall_mem_flatMap.mpr fun net1 hnet1 =>
          subtractSubnet_isPiece hload (hsubnets net1 hnet1) he
      have hstep : (∃ s ∈ subnets.flatMap (subtractSubnet load alloc · e),
            (load s).Canonical ∧ (load s).contains x = true) ↔
          (∃ s ∈ subnets, (load s).Canonical ∧ (load s).contains x = true) ∧
            ¬ e.contains x = true := by
        simp only [List.mem_flatMap]
        constructor
        · rintro ⟨s, ⟨net1, hnet1, hs⟩, hx⟩
          have hsplit := (exists_mem_subtractSubnet_iff hload
            (hsubnets net1 hnet1) he x).mp ⟨s, hs, hx⟩
          exact ⟨⟨net1, hnet1, hsplit.1⟩, hsplit.2⟩
        · rintro ⟨⟨net1, hnet1, hx⟩, hmiss⟩
          obtain ⟨s, hs, hx⟩ := (exists_mem_subtractSubnet_iff hload
            (hsubnets net1 hnet1) he x).mpr ⟨hx, hmiss⟩
          exact ⟨s, ⟨net1, hnet1, hs⟩, hx⟩
      change (∃ s ∈ subtractExcepts load alloc
        (subnets.flatMap (subtractSubnet load alloc · e)) except, _) ↔ _
      rw [ih hpieces (fun e' he' => hexcept e' (List.mem_cons_of_mem _ he')),
        hstep, List.forall_mem_cons, and_assoc]

end Loads

/-! ## When a block stays whole -/

theorem subtractSubnet_of_disjoint (h1 : (load net1).Canonical)
    (h2 : net2.Canonical)
    (hdisjoint : IPNet.overlaps (load net1) net2 = false) :
    subtractSubnet load alloc net1 net2 = [net1] := by
  rw [subtractSubnet_eq h1 h2, hdisjoint]
  rfl

theorem subtractExcepts_of_disjoint (h1 : (load net1).Canonical)
    (hexcept : ∀ e ∈ except, e.Canonical)
    (hdisjoint : ∀ e ∈ except, IPNet.overlaps (load net1) e = false) :
    subtractExcepts load alloc [net1] except = [net1] := by
  induction except with
  | nil => rfl
  | cons e except ih =>
      rw [List.forall_mem_cons] at hexcept hdisjoint
      change subtractExcepts load alloc
        ([net1].flatMap (subtractSubnet load alloc · e)) except = [net1]
      rw [List.flatMap_singleton,
        subtractSubnet_of_disjoint h1 hexcept.1 hdisjoint.1]
      exact ih hexcept.2 hdisjoint.2

theorem eq_or_alloc_of_mem_subtractSubnet {s : ρ}
    (hs : s ∈ subtractSubnet load alloc net1 net2) :
    s = net1 ∨ ∃ n, s = alloc n := by
  unfold subtractSubnet at hs
  dsimp only at hs
  split_ifs at hs <;> simp at hs
  all_goals first
    | exact Or.inl hs
    | exact Or.inr (by obtain ⟨bit, _, rfl⟩ := hs; exact ⟨_, rfl⟩)

theorem subtractExcepts_alloc (hsubnets : ∀ s ∈ subnets, ∃ n, s = alloc n) :
    ∀ s ∈ subtractExcepts load alloc subnets except, ∃ n, s = alloc n := by
  refine forall_mem_subtractExcepts hsubnets fun e _ net1 hnet1 s hs => ?_
  rcases eq_or_alloc_of_mem_subtractSubnet hs with rfl | halloc
  · exact hnet1
  · exact halloc

-- From the first overlapping exception on only new networks are left.
theorem subtractExcepts_alloc_of_overlap (h1 : (load net1).Canonical)
    (hexcept : ∀ e ∈ except, e.Canonical)
    (hoverlap : ∃ e ∈ except, IPNet.overlaps (load net1) e = true) :
    ∀ s ∈ subtractExcepts load alloc [net1] except, ∃ n, s = alloc n := by
  induction except with
  | nil => simp at hoverlap
  | cons e except ih =>
      rw [List.forall_mem_cons] at hexcept
      change ∀ s ∈ subtractExcepts load alloc
        ([net1].flatMap (subtractSubnet load alloc · e)) except, _
      rw [List.flatMap_singleton]
      by_cases he : IPNet.overlaps (load net1) e = true
      · apply subtractExcepts_alloc
        intro s hs
        rw [subtractSubnet_eq h1 hexcept.1, if_pos he] at hs
        simp only [List.mem_map] at hs
        obtain ⟨bit, _, rfl⟩ := hs
        exact ⟨_, rfl⟩
      · rw [Bool.not_eq_true] at he
        rw [subtractSubnet_of_disjoint h1 hexcept.1 he]
        apply ih hexcept.2
        simpa [he] using hoverlap

end Subtraction

end ContivVPP.Configurator
