import ContivVPP.NetAddress
import ContivVPP.Texts

/-!
# Text forms of addresses and networks

`IP.String`, `IPNet.String`, `ParseIP` and `ParseCIDR` as in Go 1.9.  The
policy code stores pod addresses as text, puts the text of a network into the
identifier of a rule and writes networks as text into ACL rules.
-/

namespace ContivVPP.Net

open ByteBits

/-! ## Printing -/

def hexDigits (n : ℕ) : String :=
  String.ofList (Nat.toDigits 16 n)

def hexByte (b : UInt8) : String :=
  String.ofList [Nat.digitChar (b.toNat / 16), Nat.digitChar (b.toNat % 16)]

def hexString (bytes : List UInt8) : String :=
  String.join (bytes.map hexByte)

-- The eight 16-bit groups of an IPv6 address.
def groups : IP → List ℕ
  | hi :: lo :: rest => (hi.toNat * 256 + lo.toNat) :: groups rest
  | _ => []

def zeroRun (gs : List ℕ) : ℕ :=
  (gs.takeWhile (· == 0)).length

-- The scan for the longest run of zero groups; the run found so far is
-- `[best.1, best.2)`, and the first one of maximal length is kept.
def longestZeros (gs : List ℕ) : ℕ → ℕ → ℕ × ℕ → ℕ × ℕ
  | 0, _, best => best
  | fuel + 1, i, best =>
      if gs.length ≤ i then best
      else
        let j := i + zeroRun (gs.drop i)
        if i < j ∧ best.2 - best.1 < j - i then
          longestZeros gs fuel (j + 1) (i, j)
        else longestZeros gs fuel (i + 1) best

def groupsString (gs : List ℕ) : String :=
  ":".intercalate (gs.map hexDigits)

def ipv6String (ip : IP) : String :=
  let gs := groups ip
  let run := longestZeros gs 8 0 (0, 0)
  -- A single zero group is not abbreviated.
  if run.2 - run.1 ≤ 1 then groupsString gs
  else groupsString (gs.take run.1) ++ "::" ++ groupsString (gs.drop run.2)

def ipString (ip : IP) : String :=
  if ip = [] then "<nil>"
  else
    match to4 ip with
    | some ip4 => ".".intercalate (ip4.map fun b => toString b.toNat)
    | none =>
        if ip.length ≠ ipv6Len then "?" ++ hexString ip else ipv6String ip

def IPNet.string (n : IPNet) : String :=
  let number := networkNumberAndMask n
  if number.1 = [] then "<nil>"
  else
    match simpleMaskLength number.2 with
    | none => ipString number.1 ++ "/" ++ hexString number.2
    | some ones => ipString number.1 ++ "/" ++ toString ones

/-! ## Parsing -/

def decDigit (c : Char) : Option ℕ :=
  if '0' ≤ c ∧ c ≤ '9' then some (c.toNat - '0'.toNat) else none

def hexDigit (c : Char) : Option ℕ :=
  if '0' ≤ c ∧ c ≤ '9' then some (c.toNat - '0'.toNat)
  else if 'a' ≤ c ∧ c ≤ 'f' then some (c.toNat - 'a'.toNat + 10)
  else if 'A' ≤ c ∧ c ≤ 'F' then some (c.toNat - 'A'.toNat + 10)
  else none

-- Numbers from `big` on are refused.
def big : ℕ := 0xffffff

def scanDigits (digit : Char → Option ℕ) (base : ℕ) :
    ℕ → List Char → Option (ℕ × List Char)
  | n, [] => some (n, [])
  | n, c :: s =>
      match digit c with
      | none => some (n, c :: s)
      | some d =>
          if big ≤ n * base + d then none
          else scanDigits digit base (n * base + d) s

def scanNumber (digit : Char → Option ℕ) (base : ℕ) (s : List Char) :
    Option (ℕ × List Char) :=
  if (s.head?.bind digit).isSome then scanDigits digit base 0 s else none

def dtoi (s : List Char) : Option (ℕ × List Char) :=
  scanNumber decDigit 10 s

def xtoi (s : List Char) : Option (ℕ × List Char) :=
  scanNumber hexDigit 16 s

def parseOctet (s : List Char) : Option (UInt8 × List Char) :=
  match dtoi s with
  | none => none
  | some (n, rest) => if 0xff < n then none else some (n.toUInt8, rest)

def parseDotOctet : List Char → Option (UInt8 × List Char)
  | '.' :: s => parseOctet s
  | _ => none

-- The result is in the IPv4-mapped form, as `net.IPv4` builds it.
def parseIPv4 (s : List Char) : Option IP := do
  let (a, s) ← parseOctet s
  let (b, s) ← parseDotOctet s
  let (c, s) ← parseDotOctet s
  let (d, s) ← parseDotOctet s
  if s.isEmpty then some (v4InV6Prefix ++ [a, b, c, d]) else none

-- The loop over the hexadecimal groups: bytes read so far, position of the
-- ellipsis, and the text that is left when the loop ends.
def parseGroups : ℕ → IP → Option ℕ → List Char →
    Option (IP × Option ℕ × List Char)
  | 0, ip, ellipsis, s => some (ip, ellipsis, s)
  | fuel + 1, ip, ellipsis, s =>
      match xtoi s with
      | none => none
      | some (n, rest) =>
          if 0xffff < n then none
          else if rest.head? = some '.' then
            if ellipsis.isNone ∧ ip.length ≠ ipv6Len - ipv4Len then none
            else if ipv6Len < ip.length + ipv4Len then none
            else
              match parseIPv4 s with
              | none => none
              | some ip4 => some (ip ++ ip4.drop 12, ellipsis, [])
          else
            let ip := ip ++ [(n / 256).toUInt8, n.toUInt8]
            match rest with
            | [] => some (ip, ellipsis, [])
            | [':', ':'] =>
                if ellipsis.isSome then none
                else some (ip, some ip.length, [])
            | ':' :: ':' :: s =>
                if ellipsis.isSome then none
                else parseGroups fuel ip (some ip.length) s
            | [':'] => none
            | ':' :: s => parseGroups fuel ip ellipsis s
            | _ => none

def expandEllipsis (ip : IP) : Option ℕ → Option IP
  | none => if ip.length < ipv6Len then none else some ip
  | some at' =>
      if ip.length < ipv6Len then
        some (ip.take at' ++ List.replicate (ipv6Len - ip.length) 0 ++
          ip.drop at')
      else none

def parseIPv6 (s : List Char) : Option IP :=
  if s = [':', ':'] then some (List.replicate ipv6Len 0)
  else
    let start := if s.take 2 = [':', ':'] then (some 0, s.drop 2)
      else (none, s)
    match parseGroups 8 [] start.1 start.2 with
    | some (ip, ellipsis, []) => expandEllipsis ip ellipsis
    | _ => none

def parseIP (text : String) : Option IP :=
  let s := text.toList
  match s.find? (fun c => c == '.' || c == ':') with
  | some '.' => parseIPv4 s
  | some ':' => parseIPv6 s
  | _ => none

/-- The network returned by `ParseCIDR`; `none` stands for an error. -/
def parseCIDR (text : String) : Option IPNet :=
  let s := text.toList
  let addr := s.takeWhile (· != '/')
  match s.drop addr.length with
  | [] => none
  | _ :: size =>
      let parsed := match parseIPv4 addr with
        | some ip => some (ip, ipv4Len)
        | none => (parseIPv6 addr).map fun ip => (ip, ipv6Len)
      match parsed, dtoi size with
      | some (ip, len), some (ones, []) =>
          if 8 * len < ones then none
          else
            let m := cidrMask ones (8 * len)
            some ⟨ipMask ip m, m⟩
      | _, _ => none

/-- `GetOneHostSubnet`: the network with the given address only. -/
def getOneHostSubnet (hostAddr : String) : Option IPNet :=
  match parseIP hostAddr with
  | none => none
  | some ip =>
      if (to4 ip).isSome then some ⟨ip, cidrMask 32 32⟩
      else some ⟨ip, cidrMask 128 128⟩

/-! ## Parsed addresses have sixteen bytes -/

variable {s : List Char} {ip : IP}

theorem parseIPv4_length (h : parseIPv4 s = some ip) : ip.length = 16 := by
  unfold parseIPv4 at h
  simp only [Option.bind_eq_bind, Option.bind_eq_some_iff] at h
  obtain ⟨⟨a, s⟩, _, ⟨b, s⟩, _, ⟨c, s⟩, _, ⟨d, s⟩, _, h⟩ := h
  split at h
  · simp only [Option.some.injEq] at h
    subst ip
    rfl
  · simp at h

-- Each round of the loop appends two bytes and uses one unit of fuel, so the
-- eight rounds never go past sixteen bytes.
variable {rest : List Char}

theorem parseGroups_length {fuel : ℕ} {out : IP}
    {ellipsis ellipsis' : Option ℕ} (hlen : ip.length + 2 * fuel ≤ 16)
    (h : parseGroups fuel ip ellipsis s = some (out, ellipsis', rest)) :
    out.length ≤ 16 := by
  induction fuel generalizing ip ellipsis s with
  | zero =>
      simp only [parseGroups, Option.some.injEq, Prod.mk.injEq] at h
      obtain ⟨rfl, _⟩ := h
      omega
  | succ fuel ih =>
      unfold parseGroups at h
      split at h
      · simp at h
      next n rest' hxtoi =>
        split at h
        · simp at h
        · split at h
          · split at h
            · simp at h
            · split at h
              · simp at h
              next hroom =>
                split at h
                · simp at h
                next ip4 hip4 =>
                  simp only [Option.some.injEq, Prod.mk.injEq] at h
                  obtain ⟨rfl, _⟩ := h
                  have h4 := parseIPv4_length hip4
                  simp only [List.length_append, List.length_drop]
                  unfold ipv6Len ipv4Len at hroom
                  omega
          · have hnext : (ip ++ [(n / 256).toUInt8, n.toUInt8]).length +
                2 * fuel ≤ 16 := by
              simp
              omega
            have hend : (ip ++ [(n / 256).toUInt8, n.toUInt8]).length ≤
                16 := by omega
            simp only at h
            split at h
            · simp only [Option.some.injEq, Prod.mk.injEq] at h
              exact h.1 ▸ hend
            · split at h
              · simp at h
              · simp only [Option.some.injEq, Prod.mk.injEq] at h
                exact h.1 ▸ hend
            · split at h
              · simp at h
              · exact ih hnext h
            · simp at h
            · exact ih hnext h
            · simp at h

theorem expandEllipsis_length {out : IP} {ellipsis : Option ℕ}
    (hlen : ip.length ≤ 16) (h : expandEllipsis ip ellipsis = some out) :
    out.length = 16 := by
  unfold expandEllipsis ipv6Len at h
  cases ellipsis with
  | none =>
      simp only at h
      split at h
      · simp at h
      · simp only [Option.some.injEq] at h
        subst out
        omega
  | some pos =>
      simp only at h
      split at h
      · simp only [Option.some.injEq] at h
        subst out
        simp
        omega
      · simp at h

theorem parseIPv6_length (h : parseIPv6 s = some ip) : ip.length = 16 := by
  unfold parseIPv6 at h
  split at h
  · simp only [Option.some.injEq] at h
    subst ip
    rfl
  · simp only at h
    split at h
    next out ellipsis hgroups =>
      exact expandEllipsis_length (parseGroups_length (by simp) hgroups) h
    · simp at h

variable {text : String}

theorem parseIP_length (h : parseIP text = some ip) : ip.length = 16 := by
  unfold parseIP at h
  simp only at h
  split at h
  · exact parseIPv4_length h
  · exact parseIPv6_length h
  · simp at h

theorem parseIP_valid (h : parseIP text = some ip) : ValidIP ip :=
  Or.inr (parseIP_length h)

/-! ## One-host networks -/

/-- A network that stands for a single address: the address as `ParseIP`
returns it, with a full mask for its family. -/
structure IPNet.OneHost (n : IPNet) : Prop where
  length : n.ip.length = 16
  mask_eq : n.mask =
    if (to4 n.ip).isSome then cidrMask 32 32 else cidrMask 128 128

theorem getOneHostSubnet_eq_some_iff {n : IPNet} :
    getOneHostSubnet text = some n ↔ parseIP text = some n.ip ∧ n.mask =
          if (to4 n.ip).isSome then cidrMask 32 32
          else cidrMask 128 128 := by
  unfold getOneHostSubnet
  obtain ⟨ip, m⟩ := n
  cases parseIP text with
  | none => simp
  | some ip' =>
      simp only [Option.some.injEq]
      split
      next hto4 =>
        simp only [Option.some.injEq, IPNet.mk.injEq]
        constructor
        · rintro ⟨rfl, rfl⟩
          simp [hto4]
        · rintro ⟨rfl, hm⟩
          simp [hm, hto4]
      next hto4 =>
        simp only [Option.some.injEq, IPNet.mk.injEq]
        constructor
        · rintro ⟨rfl, rfl⟩
          simp [hto4]
        · rintro ⟨rfl, hm⟩
          simp [hm, hto4]

theorem getOneHostSubnet_oneHost {n : IPNet}
    (h : getOneHostSubnet text = some n) : n.OneHost := by
  rw [getOneHostSubnet_eq_some_iff] at h
  exact ⟨parseIP_length h.1, h.2⟩

section

variable {n : IPNet} (h : n.OneHost)
include h

theorem IPNet.OneHost.mask_cases :
    n.mask = cidrMask 32 32 ∧ (norm n.ip).length = 4 ∨
      n.mask = cidrMask 128 128 ∧ (norm n.ip).length = 16 := by
  have hmask := h.mask_eq
  cases hto4 : to4 n.ip with
  | some ip4 =>
      left
      simp only [hto4, Option.isSome_some, if_true] at hmask
      exact ⟨hmask, by simpa [norm, hto4] using to4_length hto4⟩
  | none =>
      right
      simp only [hto4, Option.isSome_none, Bool.false_eq_true, if_false] at hmask
      exact ⟨hmask, by simpa [norm, hto4] using h.length⟩

theorem IPNet.OneHost.prefixMask : n.PrefixMask := by
  rcases h.mask_cases with ⟨hmask, _⟩ | ⟨hmask, _⟩
  · constructor <;> rw [IPNet.prefixLen, hmask] <;> decide
  · constructor <;> rw [IPNet.prefixLen, hmask] <;> decide

theorem IPNet.OneHost.isHost : n.isHost = true := by
  rcases h.mask_cases with ⟨hmask, _⟩ | ⟨hmask, _⟩
  · rw [IPNet.isHost, hmask]
    decide
  · rw [IPNet.isHost, hmask]
    decide

theorem IPNet.OneHost.familyMask : n.FamilyMask := by
  refine ⟨Or.inr h.length, h.prefixMask, ?_⟩
  rcases h.mask_cases with ⟨hmask, hlen⟩ | ⟨hmask, hlen⟩
  · rw [hmask, hlen]
    decide
  · rw [hmask, hlen]
    decide

theorem IPNet.OneHost.comparable : n.Comparable :=
  h.familyMask.comparable

theorem IPNet.OneHost.contains_iff (x : IP) :
    n.contains x = true ↔ norm x = norm n.ip := by
  constructor
  · exact h.comparable.norm_eq_of_isHost h.isHost
  · intro heq
    rw [h.comparable.contains_iff, heq]
    exact ⟨rfl, rfl⟩

theorem IPNet.OneHost.matchLen : n.matchLen = 8 * (norm n.ip).length :=
  h.comparable.isHost_iff.mp h.isHost

end

/-! ## Numbers as text -/

theorem scanDigits_append {digit : Char → Option ℕ} {base n m : ℕ}
    {ds : List Char} (h : scanDigits digit base n ds = some (m, []))
    (hrest : rest.head?.bind digit = none) :
    scanDigits digit base n (ds ++ rest) = some (m, rest) := by
  induction ds generalizing n with
  | nil =>
      simp only [scanDigits, Option.some.injEq, Prod.mk.injEq] at h
      cases rest with
      | nil => simp [scanDigits, h.1]
      | cons c rest =>
          have hc : digit c = none := hrest
          simp [scanDigits, hc, h.1]
  | cons c ds ih =>
      simp only [scanDigits, List.cons_append] at h ⊢
      cases hc : digit c with
      | none => simp [hc] at h
      | some d =>
          simp only [hc] at h ⊢
          split_ifs at h ⊢
          exact ih h

theorem scanDigits_digits {digit : Char → Option ℕ} {base n : ℕ}
    {ds : List Char} (h : ∀ c ∈ ds, (digit c).isSome = true) :
    scanDigits digit base n (ds ++ rest) =
      (scanDigits digit base n ds).bind fun p =>
        scanDigits digit base p.1 rest := by
  induction ds generalizing n with
  | nil => rfl
  | cons c ds ih =>
      obtain ⟨d, hd⟩ := Option.isSome_iff_exists.mp (h c List.mem_cons_self)
      simp only [List.cons_append, scanDigits, hd]
      split_ifs
      · rfl
      · exact ih fun c' hc' => h c' (List.mem_cons_of_mem _ hc')

section Base

variable {digit : Char → Option ℕ} {base n : ℕ} (hbase : 1 < base)
  (hdigit : ∀ d < base, digit d.digitChar = some d)

include hbase hdigit

theorem digit_of_mem_toDigits {c : Char} (h : c ∈ Nat.toDigits base n) :
    (digit c).isSome = true := by
  induction n using Nat.strongRecOn with
  | ind n ih =>
      rcases lt_or_ge n base with hlt | hge
      · rw [Nat.toDigits_of_lt_base hlt, List.mem_singleton] at h
        rw [h, hdigit n hlt]
        rfl
      · rw [Nat.toDigits_of_base_le hbase hge, List.mem_append,
          List.mem_singleton] at h
        rcases h with h | h
        · exact ih (n / base) (Nat.div_lt_self (by omega) hbase) h
        · rw [h, hdigit _ (Nat.mod_lt _ (by omega))]
          rfl

/-- A number is read back unless it is too big.  The induction splits off the
last digit. -/
theorem scanDigits_toDigits (hbig : base ≤ big) :
    scanDigits digit base 0 (Nat.toDigits base n) =
      if n < big then some (n, []) else none := by
  induction n using Nat.strongRecOn with
  | ind n ih =>
      rcases lt_or_ge n base with hlt | hge
      · rw [Nat.toDigits_of_lt_base hlt, if_pos (hlt.trans_le hbig)]
        simp [scanDigits, hdigit n hlt, hlt.trans_le hbig]
      · have hdiv : n / base < n := Nat.div_lt_self (by omega) hbase
        have heq : n / base * base + n % base = n := Nat.div_add_mod' n base
        rw [Nat.toDigits_of_base_le hbase hge,
          scanDigits_digits fun c hc => digit_of_mem_toDigits hbase hdigit hc,
          ih _ hdiv]
        by_cases hsmall : n / base < big
        · rw [if_pos hsmall, Option.bind_some, scanDigits,
            hdigit _ (Nat.mod_lt n (by omega))]
          simp only [heq]
          by_cases hn : n < big
          · rw [if_neg (Nat.not_le.mpr hn), if_pos hn, scanDigits]
          · rw [if_pos (Nat.le_of_not_lt hn), if_neg hn]
        · rw [if_neg hsmall, if_neg (by omega), Option.bind_none]

theorem head_toDigits (rest : List Char) :
    ((Nat.toDigits base n ++ rest).head?.bind digit).isSome = true := by
  obtain ⟨c, text, htext⟩ := List.exists_cons_of_ne_nil
    (@Nat.toDigits_ne_nil n base)
  have hc : c ∈ Nat.toDigits base n := by
    rw [htext]
    exact List.mem_cons_self
  rw [htext]
  exact digit_of_mem_toDigits hbase hdigit hc

theorem scanNumber_toDigits (hbig : base ≤ big) (hn : n < big)
    (hrest : rest.head?.bind digit = none) :
    scanNumber digit base (Nat.toDigits base n ++ rest) = some (n, rest) := by
  have hscan := @scanDigits_toDigits digit base n hbase hdigit hbig
  rw [if_pos hn] at hscan
  rw [scanNumber, if_pos (head_toDigits hbase hdigit rest),
    scanDigits_append hscan hrest]

end Base

/-! ## IPv4 networks as text -/

theorem decDigit_digitChar (d : ℕ) (h : d < 10) :
    decDigit d.digitChar = some d := by
  interval_cases d <;> rfl

theorem dtoi_toString {n : ℕ} (hn : n < 256)
    (hrest : rest.head?.bind decDigit = none) :
    dtoi ((toString n).toList ++ rest) = some (n, rest) := by
  have htext : (toString n).toList = Nat.toDigits 10 n := Nat.toList_repr
  rw [htext]
  exact scanNumber_toDigits (by decide) decDigit_digitChar (by decide)
    (hn.trans (by decide)) hrest

theorem parseOctet_toString (b : UInt8)
    (hrest : rest.head?.bind decDigit = none) :
    parseOctet ((toString b.toNat).toList ++ rest) = some (b, rest) := by
  have hb : b.toNat < 256 := b.toNat_lt
  rw [parseOctet, dtoi_toString hb hrest]
  simp only [if_neg (show ¬ 0xff < b.toNat by omega)]
  rw [Nat.toUInt8, UInt8.ofNat_toNat]

theorem ipString_toList (a b c d : UInt8) :
    (ipString [a, b, c, d]).toList = (toString a.toNat).toList ++
      '.' :: ((toString b.toNat).toList ++
      '.' :: ((toString c.toNat).toList ++
      '.' :: (toString d.toNat).toList)) := by
  rw [ipString, if_neg (by simp), to4_of_length_four rfl]
  simp

theorem parseDotOctet_toString (b : UInt8)
    (hrest : rest.head?.bind decDigit = none) :
    parseDotOctet ('.' :: ((toString b.toNat).toList ++ rest)) = some (b, rest) :=
  parseOctet_toString b hrest

theorem parseIPv4_ipString (a b c d : UInt8) :
    parseIPv4 (ipString [a, b, c, d]).toList =
      some (v4InV6Prefix ++ [a, b, c, d]) := by
  have hdot : ∀ rest : List Char,
      ('.' :: rest).head?.bind decDigit = none := fun _ => rfl
  have hlast := @parseDotOctet_toString [] d rfl
  rw [List.append_nil] at hlast
  simp only [parseIPv4, ipString_toList, parseOctet_toString a (hdot _),
    parseDotOctet_toString b (hdot _), parseDotOctet_toString c (hdot _),
    hlast, bind, Option.bind, List.isEmpty_nil, if_true]

theorem slash_notMem_ipString (a b c d : UInt8) :
    '/' ∉ (ipString [a, b, c, d]).toList := by
  have hbyte : ∀ x : UInt8, '/' ∉ (toString x.toNat).toList :=
    fun x hmem => absurd (Texts.isDigit_of_mem_repr hmem) (by decide)
  rw [ipString_toList]
  simp only [List.mem_append, List.mem_cons, not_or]
  exact ⟨hbyte a, by decide, hbyte b, by decide, hbyte c, by decide, hbyte d⟩

theorem takeWhile_slash (hs : '/' ∉ s) :
    (s ++ '/' :: rest).takeWhile (· != '/') = s := by
  have hne : ∀ x ∈ s, (x != '/') = true := by
    intro x hx
    rw [bne_iff_ne]
    intro heq
    exact hs (heq ▸ hx)
  rw [List.takeWhile_append_of_pos hne]
  simp

theorem string_toList (a b c d : UInt8) {ones : ℕ} (hones : ones ≤ 32) :
    (IPNet.string ⟨[a, b, c, d], onesMask ones 4⟩).toList =
      (ipString [a, b, c, d]).toList ++ '/' :: (toString ones).toList := by
  have hnumber : networkNumberAndMask ⟨[a, b, c, d], onesMask ones 4⟩ =
      ([a, b, c, d], onesMask ones 4) := by
    simp [networkNumberAndMask, to4, ipv4Len]
  simp only [IPNet.string, hnumber,
    simpleMaskLength_onesMask (show ones ≤ 8 * 4 by omega)]
  rw [if_neg (by simp), String.toList_append, String.toList_append,
    List.append_assoc]
  rfl

theorem parseCIDR_string (a b c d : UInt8) {ones : ℕ} (hones : ones ≤ 32) :
    parseCIDR (IPNet.string ⟨[a, b, c, d], onesMask ones 4⟩) =
      some ⟨land [a, b, c, d] (onesMask ones 4), onesMask ones 4⟩ := by
  have haddr := @takeWhile_slash (ipString [a, b, c, d]).toList
    (toString ones).toList (slash_notMem_ipString a b c d)
  have hsize := @dtoi_toString [] ones (by omega) rfl
  rw [List.append_nil] at hsize
  have hmask : cidrMask ones (8 * ipv4Len) = onesMask ones 4 :=
    cidrMask_eq_onesMask (Or.inl rfl) (show ones ≤ 8 * 4 by omega)
  have hip : ipMask (v4InV6Prefix ++ [a, b, c, d]) (onesMask ones 4) =
      land [a, b, c, d] (onesMask ones 4) := by
    simp [ipMask, ipv4Len, ipv6Len, v4InV6Prefix]
  simp only [parseCIDR, string_toList a b c d hones, haddr, List.drop_left,
    parseIPv4_ipString, hsize, hmask, hip]
  rw [if_neg (by rw [ipv4Len]; omega)]

end ContivVPP.Net
