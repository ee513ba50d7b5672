import ContivVPP.BitPrefix
import ContivVPP.ByteBits

/-!
# IP addresses and networks

The part of Go's package `net` that the policy code relies on.  An address is
a byte slice of length 4 or 16, where an IPv4 address may also be given in its
IPv4-mapped 16-byte form; a network is an address with a mask.  The nil slice
is the empty list.

A canonical network is what `ParseCIDR` returns for an IPv4 or an IPv6 block.
It contains exactly the addresses of its family that extend its bit prefix.
-/

namespace ContivVPP.Net

open BitPrefix ByteBits

abbrev IP := List UInt8
abbrev IPMask := List UInt8

def ipv4Len : ℕ := 4
def ipv6Len : ℕ := 16

structure IPNet where
  ip : IP
  mask : IPMask
  deriving DecidableEq, Repr

/-- `&net.IPNet{}`, which the rules use to match any address. -/
def IPNet.any : IPNet := ⟨[], []⟩

def v4InV6Prefix : List UInt8 :=
  [0, 0, 0, 0, 0, 0, 0, 0, 0, 0, 0xff, 0xff]

def to4 (ip : IP) : Option IP :=
  if ip.length = ipv4Len then some ip
  else if ip.length = ipv6Len ∧ ip.take 12 = v4InV6Prefix then
    some (ip.drop 12)
  else none

def to16 (ip : IP) : Option IP :=
  if ip.length = ipv4Len then some (v4InV6Prefix ++ ip)
  else if ip.length = ipv6Len then some ip
  else none

/-- `IP.Equal`: an IPv4 address and its mapped form are equal. -/
def ipEqual (ip x : IP) : Bool :=
  if ip.length = x.length then ip == x
  else if ip.length = ipv4Len ∧ x.length = ipv6Len then
    x.take 12 == v4InV6Prefix && ip == x.drop 12
  else if ip.length = ipv6Len ∧ x.length = ipv4Len then
    ip.take 12 == v4InV6Prefix && ip.drop 12 == x
  else false

def cidrMask (ones bits : ℕ) : IPMask :=
  if (bits ≠ 8 * ipv4Len ∧ bits ≠ 8 * ipv6Len) ∨ bits < ones then []
  else onesMask ones (bits / 8)

def leadingOnes : ℕ → UInt8 → ℕ × UInt8
  | 0, v => (0, v)
  | fuel + 1, v =>
      if v &&& 0x80 ≠ 0 then
        let rest := leadingOnes fuel (v <<< 1)
        (rest.1 + 1, rest.2)
      else (0, v)

/-- `simpleMaskLength`; `none` is the result -1 for a mask that is not a run
of ones followed by zeros.  A byte other than 0xff has at most seven leading
ones, so eight rounds are enough. -/
def simpleMaskLength : IPMask → Option ℕ
  | [] => some 0
  | v :: rest =>
      if v = 0xff then (simpleMaskLength rest).map (· + 8)
      else
        let count := leadingOnes 8 v
        if count.2 = 0 ∧ rest.all (· == 0) then some count.1 else none

/-- `IPMask.Size`: number of leading ones and number of bits. -/
def maskSize (m : IPMask) : ℕ × ℕ :=
  match simpleMaskLength m with
  | some ones => (ones, 8 * m.length)
  | none => (0, 0)

def ipMask (ip : IP) (m : IPMask) : IP :=
  let m := if m.length = ipv6Len ∧ ip.length = ipv4Len ∧
      m.take 12 = List.replicate 12 0xff then m.drop 12 else m
  let ip := if m.length = ipv4Len ∧ ip.length = ipv6Len ∧
      ip.take 12 = v4InV6Prefix then ip.drop 12 else ip
  if ip.length = m.length then land ip m else []

/-- `networkNumberAndMask`: address and mask of equal length, or nils for an
ill-formed network. -/
def networkNumberAndMask (n : IPNet) : IP × IPMask :=
  let ip := (to4 n.ip).getD n.ip
  if ip.length ≠ ipv4Len ∧ ip.length ≠ ipv6Len then ([], [])
  else if n.mask.length = ipv4Len then
    if ip.length ≠ ipv4Len then ([], []) else (ip, n.mask)
  else if n.mask.length = ipv6Len then
    if ip.length = ipv4Len then (ip, n.mask.drop 12) else (ip, n.mask)
  else ([], [])

def IPNet.contains (n : IPNet) (ip : IP) : Bool :=
  let number := networkNumberAndMask n
  let ip := (to4 ip).getD ip
  if ip.length ≠ number.1.length then false
  else land number.1 number.2 == land ip number.2

/-! ## Addresses -/

def norm (ip : IP) : IP :=
  (to4 ip).getD ip

def ValidIP (ip : IP) : Prop :=
  ip.length = ipv4Len ∨ ip.length = ipv6Len

instance (ip : IP) : Decidable (ValidIP ip) :=
  inferInstanceAs (Decidable (_ ∨ _))

theorem to4_of_length_four {ip : IP} (h : ip.length = 4) : to4 ip = some ip := by
  simp [to4, ipv4Len, h]

theorem norm_of_length_four {ip : IP} (h : ip.length = 4) : norm ip = ip := by
  simp [norm, to4_of_length_four h]

theorem to4_length {ip x : IP} (h : to4 ip = some x) : x.length = 4 := by
  unfold to4 at h
  split at h
  next hlen =>
    simp only [Option.some.injEq] at h
    subst x
    exact hlen
  next =>
    split at h
    next hlen =>
      simp only [Option.some.injEq] at h
      subst x
      simp [hlen.1, ipv6Len]
    next => simp at h

theorem norm_length {ip : IP} (h : ValidIP ip) :
    (norm ip).length = 4 ∨ (norm ip).length = 16 := by
  unfold norm
  cases hto4 : to4 ip with
  | some x => exact Or.inl (by simpa using to4_length hto4)
  | none =>
      rcases h with h4 | h16
      · rw [to4_of_length_four h4] at hto4
        simp at hto4
      · exact Or.inr (by simpa [ipv6Len] using h16)

theorem ipEqual_iff_norm {a b : IP} (ha : ValidIP a) (hb : ValidIP b) :
    ipEqual a b = true ↔ norm a = norm b := by
  have hsplit : ∀ x : IP, x = x.take 12 ++ x.drop 12 := by
    intro x
    simp
  unfold ValidIP ipv4Len ipv6Len at ha hb
  rcases ha with ha | ha <;> rcases hb with hb | hb
  · simp [ipEqual, ha, hb, norm_of_length_four]
  · by_cases hmap : b.take 12 = v4InV6Prefix
    · simp [ipEqual, norm, to4, ipv4Len, ipv6Len, ha, hb, hmap]
    · have hne : a ≠ b := by
        intro hab
        rw [hab, hb] at ha
        omega
      simp [ipEqual, norm, to4, ipv4Len, ipv6Len, ha, hb, hmap, hne]
  · by_cases hmap : a.take 12 = v4InV6Prefix
    · simp [ipEqual, norm, to4, ipv4Len, ipv6Len, ha, hb, hmap]
    · have hne : a ≠ b := by
        intro hab
        rw [hab, hb] at ha
        omega
      simp [ipEqual, norm, to4, ipv4Len, ipv6Len, ha, hb, hmap, hne]
  · by_cases hma : a.take 12 = v4InV6Prefix <;>
      by_cases hmb : b.take 12 = v4InV6Prefix
    · have hiff : a = b ↔ a.drop 12 = b.drop 12 := by
        constructor
        · intro hab
          rw [hab]
        · intro hdrop
          rw [hsplit a, hsplit b, hma, hmb, hdrop]
      simpa [ipEqual, norm, to4, ipv4Len, ipv6Len, ha, hb, hma, hmb] using hiff
    · have hne : a ≠ b := by
        intro hab
        exact hmb (hab ▸ hma)
      have hlen : a.drop 12 ≠ b := by
        intro hdrop
        have := congrArg List.length hdrop
        simp [ha, hb] at this
      simp [ipEqual, norm, to4, ipv4Len, ipv6Len, ha, hb, hma, hmb, hne, hlen]
    · have hne : a ≠ b := by
        intro hab
        exact hma (hab ▸ hmb)
      have hlen : a ≠ b.drop 12 := by
        intro hdrop
        have := congrArg List.length hdrop
        simp [ha, hb] at this
      simp [ipEqual, norm, to4, ipv4Len, ipv6Len, ha, hb, hma, hmb, hne, hlen]
    · simp [ipEqual, norm, to4, ipv4Len, ipv6Len, ha, hb, hma, hmb]

theorem contains_congr {n : IPNet} {x y : IP} (h : norm x = norm y) :
    n.contains x = n.contains y := by
  unfold IPNet.contains
  change (if (norm x).length ≠ _ then false else _ == land (norm x) _) =
    (if (norm y).length ≠ _ then false else _ == land (norm y) _)
  rw [h]

/-! ## Masks -/

theorem leadingOnes_maskByte {ones : ℕ} (h : ones < 8) :
    leadingOnes 8 (~~~ ((0xff : UInt8) >>> ones.toUInt8)) = (ones, 0) := by
  interval_cases ones <;> decide

theorem maskByte_ne_ff {ones : ℕ} (h : ones < 8) :
    (~~~ ((0xff : UInt8) >>> ones.toUInt8)) ≠ 0xff := by
  interval_cases ones <;> decide

theorem onesMask_zero_eq_replicate (len : ℕ) :
    onesMask 0 len = List.replicate len 0 := by
  induction len with
  | zero => rfl
  | succ len ih =>
      rw [onesMask, if_neg (by omega), ih, List.replicate_succ]
      rfl

theorem simpleMaskLength_onesMask {ones len : ℕ} (h : ones ≤ 8 * len) :
    simpleMaskLength (onesMask ones len) = some ones := by
  induction len generalizing ones with
  | zero =>
      have hones : ones = 0 := by omega
      subst ones
      rfl
  | succ len ih =>
      by_cases hbyte : 8 ≤ ones
      · rw [onesMask, if_pos hbyte, simpleMaskLength, if_pos rfl, ih (by omega)]
        simp only [Option.map_some, Option.some.injEq]
        omega
      · have hlt : ones < 8 := by omega
        rw [onesMask, if_neg hbyte, simpleMaskLength,
          if_neg (maskByte_ne_ff hlt), leadingOnes_maskByte hlt,
          onesMask_zero_eq_replicate]
        simp

theorem maskSize_onesMask {ones len : ℕ} (h : ones ≤ 8 * len) :
    maskSize (onesMask ones len) = (ones, 8 * len) := by
  simp [maskSize, simpleMaskLength_onesMask h]

theorem cidrMask_eq_onesMask {ones len : ℕ} (hlen : len = 4 ∨ len = 16)
    (h : ones ≤ 8 * len) : cidrMask ones (8 * len) = onesMask ones len := by
  have hdiv : 8 * len / 8 = len := by omega
  unfold cidrMask ipv4Len ipv6Len
  rw [if_neg (by omega), hdiv]

/-! ## Networks with a prefix mask -/

def IPNet.prefixLen (n : IPNet) : ℕ :=
  (maskSize n.mask).1

structure IPNet.PrefixMask (n : IPNet) : Prop where
  le : n.prefixLen ≤ 8 * n.mask.length
  eq : n.mask = onesMask n.prefixLen n.mask.length

instance (n : IPNet) : Decidable n.PrefixMask :=
  decidable_of_iff (n.prefixLen ≤ 8 * n.mask.length ∧
      n.mask = onesMask n.prefixLen n.mask.length)
    ⟨fun h => ⟨h.1, h.2⟩, fun h => ⟨h.1, h.2⟩⟩

def IPNet.isHost (n : IPNet) : Bool :=
  (maskSize n.mask).1 == (maskSize n.mask).2

/-- The length of the prefix that `Contains` compares, which for an address
in mapped form is counted within its last four bytes. -/
def IPNet.matchLen (n : IPNet) : ℕ :=
  (maskSize (Net.networkNumberAndMask n).2).1

theorem IPNet.matchLen_of_ip_nil {n : IPNet} (h : n.ip = []) :
    n.matchLen = 0 := by
  simp [IPNet.matchLen, Net.networkNumberAndMask, h, to4, ipv4Len, ipv6Len,
    maskSize, simpleMaskLength]

theorem IPNet.PrefixMask.isHost_iff {n : IPNet} (h : n.PrefixMask) :
    n.isHost = true ↔ n.prefixLen = 8 * n.mask.length := by
  have hsize : maskSize n.mask = (n.prefixLen, 8 * n.mask.length) := by
    conv_lhs => rw [h.eq]
    exact maskSize_onesMask h.le
  simp [IPNet.isHost, hsize]

theorem validIP_of_norm {ip : IP}
    (h : (norm ip).length = 4 ∨ (norm ip).length = 16) : ValidIP ip := by
  unfold ValidIP ipv4Len ipv6Len
  cases hto4 : to4 ip with
  | none =>
      simp only [norm, hto4, Option.getD_none] at h
      exact h
  | some x =>
      unfold to4 ipv4Len ipv6Len at hto4
      split at hto4
      next hlen => exact Or.inl hlen
      next =>
        split at hto4
        next hlen => exact Or.inr hlen.1
        next => simp at hto4

structure IPNet.Comparable (n : IPNet) : Prop where
  valid : ValidIP n.ip
  number : Net.networkNumberAndMask n =
    (norm n.ip, onesMask n.matchLen (norm n.ip).length)
  matchLen_le : n.matchLen ≤ 8 * (norm n.ip).length
  isHost_iff : n.isHost = true ↔ n.matchLen = 8 * (norm n.ip).length

theorem IPNet.comparable_of_number {n : IPNet} {ones : ℕ}
    (hlen : (norm n.ip).length = 4 ∨ (norm n.ip).length = 16)
    (hones : ones ≤ 8 * (norm n.ip).length)
    (hnumber : Net.networkNumberAndMask n =
      (norm n.ip, onesMask ones (norm n.ip).length))
    (hhost : n.isHost = true ↔ ones = 8 * (norm n.ip).length) :
    n.Comparable := by
  have heq : n.matchLen = ones := by
    rw [IPNet.matchLen, hnumber, maskSize_onesMask hones]
  exact ⟨validIP_of_norm hlen, by rw [heq, hnumber], by omega,
    by rw [heq, hhost]⟩

theorem IPNet.PrefixMask.comparable {n : IPNet} (h : n.PrefixMask) :
    Net.networkNumberAndMask n = ([], []) ∨ n.Comparable := by
  have hhost := h.isHost_iff
  have heq := h.eq
  have hle := h.le
  have hunfold : Net.networkNumberAndMask n =
      if (norm n.ip).length ≠ ipv4Len ∧ (norm n.ip).length ≠ ipv6Len then
        ([], [])
      else if n.mask.length = ipv4Len then
        if (norm n.ip).length ≠ ipv4Len then ([], [])
        else (norm n.ip, n.mask)
      else if n.mask.length = ipv6Len then
        if (norm n.ip).length = ipv4Len then (norm n.ip, n.mask.drop 12)
        else (norm n.ip, n.mask)
      else ([], []) := rfl
  unfold ipv4Len ipv6Len at hunfold
  split_ifs at hunfold with hlen hm4 hip hm16 hip
  · exact Or.inl hunfold
  · exact Or.inl hunfold
  · -- A mask of four bytes.
    right
    rw [not_not] at hip
    rw [hm4] at hle heq hhost
    have hones : n.prefixLen ≤ 8 * (norm n.ip).length := by
      rw [hip]
      exact hle
    apply IPNet.comparable_of_number (Or.inl hip) hones
    · rw [hunfold, hip, ← heq]
    · rw [hhost, hip]
  · -- A mask of sixteen bytes for an IPv4 address.
    right
    rw [hm16] at hle heq hhost
    have hdrop : n.mask.drop 12 = onesMask (n.prefixLen - 96) 4 := by
      rw [heq]
      exact onesMask_drop n.prefixLen 12 4
    have hones : n.prefixLen - 96 ≤ 8 * (norm n.ip).length := by
      rw [hip]
      omega
    apply IPNet.comparable_of_number (Or.inl hip) hones
    · rw [hunfold, hip, hdrop]
    · rw [hhost, hip]
      omega
  · right
    have h16 : (norm n.ip).length = 16 := by omega
    rw [hm16] at hle heq hhost
    have hones : n.prefixLen ≤ 8 * (norm n.ip).length := by
      rw [h16]
      exact hle
    apply IPNet.comparable_of_number (Or.inr h16) hones
    · rw [hunfold, h16, ← heq]
    · rw [hhost, h16]
  · exact Or.inl hunfold

theorem IPNet.PrefixMask.comparable_of_contains {n : IPNet}
    (h : n.PrefixMask) {x : IP} (hvalid : ValidIP x)
    (hx : n.contains x = true) : n.Comparable := by
  rcases h.comparable with hnone | hcomparable
  · unfold IPNet.contains at hx
    change (if (norm x).length ≠ _ then false else _) = true at hx
    rw [hnone] at hx
    rcases norm_length hvalid with hlen | hlen <;> simp [hlen] at hx
  · exact hcomparable

theorem IPNet.Comparable.contains_iff {n : IPNet} (h : n.Comparable) (x : IP) :
    n.contains x = true ↔ (norm x).length = (norm n.ip).length ∧
        (bits (norm n.ip)).take n.matchLen = (bits (norm x)).take n.matchLen := by
  unfold IPNet.contains
  rw [h.number]
  change (if (norm x).length ≠ (norm n.ip).length then false
    else land (norm n.ip) _ == land (norm x) _) = true ↔ _
  by_cases hlen : (norm x).length = (norm n.ip).length
  · rw [if_neg (by simpa using hlen), beq_iff_eq,
      land_onesMask_eq_iff hlen.symm h.matchLen_le]
    simp [hlen]
  · simp [hlen]

structure IPNet.FamilyMask (n : IPNet) : Prop where
  valid : ValidIP n.ip
  prefixMask : n.PrefixMask
  mask_length : n.mask.length = (norm n.ip).length

section

variable {n : IPNet} (h : n.FamilyMask)
include h

theorem IPNet.FamilyMask.prefixLen_le : n.prefixLen ≤ 8 * (norm n.ip).length := by
  rw [← h.mask_length]
  exact h.prefixMask.le

theorem IPNet.FamilyMask.number : Net.networkNumberAndMask n =
      (norm n.ip, onesMask n.prefixLen (norm n.ip).length) := by
  have hnorm : (to4 n.ip).getD n.ip = norm n.ip := rfl
  have hmask := h.prefixMask.eq
  rw [h.mask_length] at hmask
  rw [Net.networkNumberAndMask, hnorm, h.mask_length]
  rcases norm_length h.valid with hlen | hlen
  · rw [hlen] at hmask ⊢
    simp [ipv4Len, ← hmask]
  · rw [hlen] at hmask ⊢
    simp [ipv4Len, ipv6Len, ← hmask]

theorem IPNet.FamilyMask.comparable : n.Comparable := by
  apply IPNet.comparable_of_number (norm_length h.valid) h.prefixLen_le h.number
  rw [h.prefixMask.isHost_iff, h.mask_length]

theorem IPNet.FamilyMask.matchLen : n.matchLen = n.prefixLen := by
  rw [IPNet.matchLen, h.number, maskSize_onesMask h.prefixLen_le]

theorem IPNet.FamilyMask.contains_iff (x : IP) : n.contains x = true ↔
      (norm x).length = (norm n.ip).length ∧ (bits (norm n.ip)).take n.prefixLen =
          (bits (norm x)).take n.prefixLen := by
  rw [h.comparable.contains_iff, h.matchLen]

end

theorem IPNet.Comparable.norm_eq_of_isHost {n : IPNet} (h : n.Comparable)
    (hhost : n.isHost = true) {x : IP} (hx : n.contains x = true) :
    norm x = norm n.ip := by
  rw [h.contains_iff, h.isHost_iff.mp hhost] at hx
  apply bits_injective
  have hlen : (bits (norm x)).length ≤ 8 * (norm n.ip).length := by
    rw [bits_length, hx.1]
  have hlen' : (bits (norm n.ip)).length ≤ 8 * (norm n.ip).length := by
    rw [bits_length]
  rw [← List.take_of_length_le hlen, ← hx.2, List.take_of_length_le hlen']

/-! ## Canonical networks -/

def IPNet.prefixBits (n : IPNet) : List Bool :=
  (bits n.ip).take n.prefixLen

/-- A network with the host bits cleared, as `ParseCIDR` gives it.  Blocks of
IPv4-mapped addresses are among these. -/
structure IPNet.Block (n : IPNet) : Prop where
  length : n.ip.length = 4 ∨ n.ip.length = 16
  prefixLen_le : n.prefixLen ≤ 8 * n.ip.length
  mask_eq : n.mask = onesMask n.prefixLen n.ip.length
  hostZero : land n.ip n.mask = n.ip

/-- A network in the form `ParseCIDR` gives it: IPv4 blocks with four bytes,
IPv6 blocks with sixteen, the mask a run of ones, the host bits zero.  A
16-byte block of IPv4-mapped addresses is not in this form. -/
structure IPNet.Canonical (n : IPNet) : Prop where
  family : n.ip.length = 4 ∨ (n.ip.length = 16 ∧ to4 n.ip = none)
  prefixLen_le : n.prefixLen ≤ 8 * n.ip.length
  mask_eq : n.mask = onesMask n.prefixLen n.ip.length
  hostZero : land n.ip n.mask = n.ip

instance (n : IPNet) : Decidable n.Canonical :=
  decidable_of_iff ((n.ip.length = 4 ∨ (n.ip.length = 16 ∧ to4 n.ip = none)) ∧
      n.prefixLen ≤ 8 * n.ip.length ∧
      n.mask = onesMask n.prefixLen n.ip.length ∧
      land n.ip n.mask = n.ip)
    ⟨fun ⟨a, b, c, d⟩ => ⟨a, b, c, d⟩, fun ⟨a, b, c, d⟩ => ⟨a, b, c, d⟩⟩

theorem IPNet.Canonical.block {n : IPNet} (h : n.Canonical) : n.Block :=
  ⟨h.family.imp id And.left, h.prefixLen_le, h.mask_eq, h.hostZero⟩

theorem IPNet.Block.mask_length {n : IPNet} (h : n.Block) :
    n.mask.length = n.ip.length := by
  rw [h.mask_eq]
  simp

section

variable {n : IPNet} (h : n.Canonical)
include h

theorem IPNet.Canonical.norm_ip : norm n.ip = n.ip := by
  rcases h.family with h4 | ⟨_, hnone⟩
  · exact norm_of_length_four h4
  · simp [norm, hnone]

theorem IPNet.Canonical.validIP : ValidIP n.ip := by
  rcases h.family with h4 | ⟨h16, _⟩
  · exact Or.inl h4
  · exact Or.inr h16

theorem IPNet.Canonical.mask_length : n.mask.length = n.ip.length :=
  h.block.mask_length

theorem IPNet.Canonical.familyMask : n.FamilyMask := by
  refine ⟨h.validIP, ⟨?_, ?_⟩, by rw [h.mask_length, h.norm_ip]⟩
  · rw [h.mask_length]
    exact h.prefixLen_le
  · rw [h.mask_length]
    exact h.mask_eq

theorem IPNet.Canonical.prefixBits_length :
    n.prefixBits.length = n.prefixLen := by
  simpa [IPNet.prefixBits] using h.prefixLen_le

theorem IPNet.Canonical.contains_iff (x : IP) : n.contains x = true ↔
      (norm x).length = n.ip.length ∧ n.prefixBits <+: bits (norm x) := by
  rw [h.familyMask.contains_iff, h.norm_ip, List.prefix_iff_eq_take,
    h.prefixBits_length]
  rfl

end

theorem IPNet.Canonical.ip_eq_of_prefixBits_eq {n n' : IPNet}
    (h : n.Canonical) (h' : n'.Canonical)
    (hlen : n.ip.length = n'.ip.length)
    (hones : n.prefixLen = n'.prefixLen)
    (hbits : n.prefixBits = n'.prefixBits) : n.ip = n'.ip := by
  have hmask : n.mask = n'.mask := by
    rw [h.mask_eq, h'.mask_eq, hones, hlen]
  rw [← h.hostZero, ← h'.hostZero, ← hmask, h.mask_eq]
  rw [land_onesMask_eq_iff hlen h.prefixLen_le]
  have htake : (bits n'.ip).take n.prefixLen = n'.prefixBits := by
    rw [IPNet.prefixBits, hones]
  rw [htake, ← hbits]
  rfl

end ContivVPP.Net
