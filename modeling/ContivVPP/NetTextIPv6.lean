import ContivVPP.NetText

/-!
# IPv6 networks as text

`IP.String` writes the eight groups of an IPv6 address in hexadecimal, and
abbreviates the longest run of zero groups.  `ParseCIDR` reads this text back.
So the text of a network gives the network, unless it is an IPv4 network in
its 16-byte form, which comes back with four bytes.
-/

namespace ContivVPP.Net

open ByteBits

/-! ## Hexadecimal numbers -/

theorem hexDigit_digitChar (d : ℕ) (h : d < 16) :
    hexDigit d.digitChar = some d := by
  interval_cases d <;> rfl

variable {c : Char}

theorem hexDigit_of_mem_toDigits {n : ℕ} (h : c ∈ Nat.toDigits 16 n) :
    (hexDigit c).isSome = true :=
  digit_of_mem_toDigits (by decide) hexDigit_digitChar h

theorem exists_cons_hexDigits (n : ℕ) :
    ∃ c text, (hexDigits n).toList = c :: text ∧ (hexDigit c).isSome = true := by
  rw [hexDigits, String.toList_ofList]
  obtain ⟨c, text, htext⟩ := List.exists_cons_of_ne_nil
    (@Nat.toDigits_ne_nil n 16)
  have hc : c ∈ Nat.toDigits 16 n := by
    rw [htext]
    exact List.mem_cons_self
  exact ⟨c, text, htext, hexDigit_of_mem_toDigits hc⟩

theorem xtoi_hexDigits {n : ℕ} (hn : n < 65536) {rest : List Char}
    (hrest : rest.head?.bind hexDigit = none) :
    xtoi ((hexDigits n).toList ++ rest) = some (n, rest) := by
  rw [hexDigits, String.toList_ofList]
  exact scanNumber_toDigits (by decide) hexDigit_digitChar (by decide)
    (hn.trans (by decide)) hrest

/-! ## Groups -/

def groupBytes (g : ℕ) : IP :=
  [(g / 256).toUInt8, g.toUInt8]

theorem groupBytes_group (hi lo : UInt8) :
    groupBytes (hi.toNat * 256 + lo.toNat) = [hi, lo] := by
  have hlo : lo.toNat < 256 := lo.toNat_lt
  have hhi : hi.toNat < 256 := hi.toNat_lt
  have hdiv : (hi.toNat * 256 + lo.toNat) / 256 = hi.toNat := by omega
  have hmod : (hi.toNat * 256 + lo.toNat) % 256 = lo.toNat := by omega
  simp only [groupBytes, hdiv, List.cons.injEq, and_true]
  constructor
  · rw [Nat.toUInt8, UInt8.ofNat_toNat]
  · apply UInt8.toNat_inj.mp
    rw [Nat.toUInt8, UInt8.toNat_ofNat']
    exact hmod

theorem groups_lt : ∀ (ip : IP), ∀ g ∈ groups ip, g < 65536
  | [], g, hg => by simp [groups] at hg
  | [_], g, hg => by simp [groups] at hg
  | hi :: lo :: rest, g, hg => by
      have hlo : lo.toNat < 256 := lo.toNat_lt
      have hhi : hi.toNat < 256 := hi.toNat_lt
      rw [groups, List.mem_cons] at hg
      rcases hg with rfl | hg
      · omega
      · exact groups_lt rest g hg

theorem groups_length : ∀ (ip : IP), (groups ip).length = ip.length / 2
  | [] => rfl
  | [_] => by simp [groups]
  | _ :: _ :: rest => by
      rw [groups, List.length_cons, groups_length rest, List.length_cons,
        List.length_cons]
      omega

theorem flatMap_groups : ∀ (ip : IP), ip.length % 2 = 0 →
    (groups ip).flatMap groupBytes = ip
  | [], _ => rfl
  | [_], h => by simp at h
  | hi :: lo :: rest, h => by
      rw [groups, List.flatMap_cons, groupBytes_group, flatMap_groups rest]
      · rfl
      · simp only [List.length_cons] at h
        omega

theorem flatMap_groupBytes_length (gs : List ℕ) :
    (gs.flatMap groupBytes).length = 2 * gs.length := by
  induction gs with
  | nil => rfl
  | cons g gs ih =>
      rw [List.flatMap_cons, List.length_append, ih, List.length_cons,
        groupBytes, List.length_cons, List.length_cons, List.length_nil]
      omega

theorem groupsString_singleton (g : ℕ) :
    (groupsString [g]).toList = (hexDigits g).toList := by
  simp [groupsString]

theorem groupsString_cons (g g' : ℕ) (gs : List ℕ) :
    (groupsString (g :: g' :: gs)).toList =
      (hexDigits g).toList ++ ':' :: (groupsString (g' :: gs)).toList := by
  simp [groupsString, String.toList_intercalate]

variable {gs : List ℕ}

theorem exists_cons_groupsString (hgs : gs ≠ []) :
    ∃ c text, (groupsString gs).toList = c :: text ∧
      (hexDigit c).isSome = true := by
  match gs, hgs with
  | [g], _ =>
      rw [groupsString_singleton]
      exact exists_cons_hexDigits g
  | g :: g' :: gs, _ =>
      obtain ⟨c, text, htext, hc⟩ := exists_cons_hexDigits g
      rw [groupsString_cons, htext]
      exact ⟨c, _, rfl, hc⟩

def IsGroupChar (c : Char) : Prop :=
  (hexDigit c).isSome = true ∨ c = ':'

theorem isGroupChar_of_mem_groupsString : ∀ {gs : List ℕ} {c : Char},
    c ∈ (groupsString gs).toList → IsGroupChar c
  | [], c, hc => by simp [groupsString] at hc
  | [g], c, hc => by
      rw [groupsString_singleton, hexDigits, String.toList_ofList] at hc
      exact Or.inl (hexDigit_of_mem_toDigits hc)
  | g :: g' :: gs, c, hc => by
      rw [groupsString_cons, List.mem_append, List.mem_cons, hexDigits,
        String.toList_ofList] at hc
      rcases hc with hc | hc | hc
      · exact Or.inl (hexDigit_of_mem_toDigits hc)
      · exact Or.inr hc
      · exact isGroupChar_of_mem_groupsString hc

/-! ## Reading groups -/

variable {s : List Char} {pre post : List ℕ}

section ParseGroups

variable {fuel g : ℕ} {ip : IP} {ellipsis : Option ℕ}

theorem parseGroups_last (hg : g < 65536) :
    parseGroups (fuel + 1) ip ellipsis (hexDigits g).toList =
      some (ip ++ groupBytes g, ellipsis, []) := by
  have hread := @xtoi_hexDigits g hg [] rfl
  rw [List.append_nil] at hread
  simp only [parseGroups, hread, groupBytes]
  rw [if_neg (by omega)]
  simp

theorem parseGroups_colon (hg : g < 65536) (hc : c ≠ ':') :
    parseGroups (fuel + 1) ip ellipsis ((hexDigits g).toList ++ ':' :: c :: s) =
      parseGroups fuel (ip ++ groupBytes g) ellipsis (c :: s) := by
  have hread := @xtoi_hexDigits g hg (':' :: c :: s) rfl
  simp only [parseGroups, hread, groupBytes]
  rw [if_neg (by omega)]
  simp [hc]

theorem parseGroups_ellipsis (hg : g < 65536) : parseGroups (fuel + 1) ip none
        ((hexDigits g).toList ++ ':' :: ':' :: c :: s) =
      parseGroups fuel (ip ++ groupBytes g)
        (some (ip ++ groupBytes g).length) (c :: s) := by
  have hread := @xtoi_hexDigits g hg (':' :: ':' :: c :: s) rfl
  simp only [parseGroups, hread, groupBytes]
  rw [if_neg (by omega)]
  simp

theorem parseGroups_final_ellipsis (hg : g < 65536) :
    parseGroups (fuel + 1) ip none ((hexDigits g).toList ++ [':', ':']) =
      some (ip ++ groupBytes g, some (ip ++ groupBytes g).length, []) := by
  have hread := @xtoi_hexDigits g hg [':', ':'] rfl
  simp only [parseGroups, hread, groupBytes]
  rw [if_neg (by omega)]
  simp

theorem ne_colon_of_hexDigit (h : (hexDigit c).isSome = true) : c ≠ ':' := by
  rintro rfl
  exact absurd h (by decide)

theorem parseGroups_groupsString (hgs : gs ≠ []) (hlt : ∀ g ∈ gs, g < 65536)
    (hfuel : gs.length ≤ fuel) :
    parseGroups fuel ip ellipsis (groupsString gs).toList =
      some (ip ++ gs.flatMap groupBytes, ellipsis, []) := by
  induction gs generalizing fuel ip with
  | nil => exact absurd rfl hgs
  | cons g gs ih =>
      obtain ⟨fuel, rfl⟩ : ∃ k, fuel = k + 1 :=
        ⟨fuel - 1, by rw [List.length_cons] at hfuel; omega⟩
      have hg := hlt g List.mem_cons_self
      cases gs with
      | nil =>
          rw [groupsString_singleton, parseGroups_last hg]
          simp
      | cons g' gs =>
          obtain ⟨c, text, htext, hc⟩ :=
            exists_cons_groupsString (List.cons_ne_nil g' gs)
          rw [groupsString_cons, htext,
            parseGroups_colon hg (ne_colon_of_hexDigit hc), ← htext,
            ih (by simp) (fun g hg => hlt g (List.mem_cons_of_mem _ hg))
              (by simpa using hfuel)]
          simp [List.append_assoc]

theorem parseGroups_abbreviated (hpre : pre ≠ [])
    (hlt : ∀ g ∈ pre ++ post, g < 65536)
    (hfuel : pre.length + post.length ≤ fuel) :
    parseGroups fuel ip none ((groupsString pre).toList ++
        ':' :: ':' :: (groupsString post).toList) =
      some (ip ++ pre.flatMap groupBytes ++ post.flatMap groupBytes,
        some (ip ++ pre.flatMap groupBytes).length, []) := by
  induction pre generalizing fuel ip with
  | nil => exact absurd rfl hpre
  | cons g pre ih =>
      obtain ⟨fuel, rfl⟩ : ∃ k, fuel = k + 1 :=
        ⟨fuel - 1, by rw [List.length_cons] at hfuel; omega⟩
      have hg := hlt g (by simp)
      rw [List.length_cons] at hfuel
      cases pre with
      | nil =>
          rw [groupsString_singleton]
          cases post with
          | nil =>
              have hempty : (groupsString []).toList = [] := rfl
              rw [hempty, parseGroups_final_ellipsis hg]
              simp
          | cons g' post =>
              obtain ⟨c, text, htext, hc⟩ :=
                exists_cons_groupsString (List.cons_ne_nil g' post)
              rw [htext, parseGroups_ellipsis hg, ← htext,
                parseGroups_groupsString (by simp)
                  (fun g hg => hlt g (List.mem_append_right _ hg))
                  (by rw [List.length_nil] at hfuel; omega)]
              simp
      | cons g' pre =>
          obtain ⟨c, text, htext, hc⟩ :=
            exists_cons_groupsString (List.cons_ne_nil g' pre)
          have hrest := @ih fuel (ip ++ groupBytes g) (by simp)
            (fun g hg => hlt g (List.mem_cons_of_mem _ hg)) (by omega)
          rw [groupsString_cons, htext, List.append_assoc, List.cons_append,
            List.cons_append,
            parseGroups_colon hg (ne_colon_of_hexDigit hc),
            ← List.cons_append, ← htext, hrest]
          simp [List.append_assoc]

end ParseGroups

/-! ## The abbreviated run -/

structure ZeroGroups (gs : List ℕ) (run : ℕ × ℕ) : Prop where
  le : run.1 ≤ run.2
  le_length : run.2 ≤ gs.length
  zero : (gs.drop run.1).take (run.2 - run.1) = List.replicate (run.2 - run.1) 0

theorem zeroGroups_zeroRun {i : ℕ} (hi : i ≤ gs.length) :
    ZeroGroups gs (i, i + zeroRun (gs.drop i)) := by
  have hle : zeroRun (gs.drop i) ≤ (gs.drop i).length :=
    (List.takeWhile_sublist _).length_le
  have htake : (gs.drop i).take (zeroRun (gs.drop i)) =
      (gs.drop i).takeWhile (· == 0) :=
    (List.prefix_iff_eq_take.mp (List.takeWhile_prefix _)).symm
  refine ⟨Nat.le_add_right _ _, ?_, ?_⟩
  · rw [List.length_drop] at hle
    simp only
    omega
  · simp only [Nat.add_sub_cancel_left]
    rw [htake, List.eq_replicate_iff]
    refine ⟨rfl, fun g hg => ?_⟩
    exact beq_iff_eq.mp (List.all_eq_true.mp List.all_takeWhile g hg)

theorem longestZeros_spec {fuel i : ℕ} {best : ℕ × ℕ}
    (hbest : ZeroGroups gs best) :
    ZeroGroups gs (longestZeros gs fuel i best) := by
  induction fuel generalizing i best with
  | zero => exact hbest
  | succ fuel ih =>
      simp only [longestZeros]
      split_ifs with hend
      · exact hbest
      · exact ih (zeroGroups_zeroRun (not_le.mp hend).le)
      · exact ih hbest

theorem ZeroGroups.split {run : ℕ × ℕ} (h : ZeroGroups gs run) :
    gs = gs.take run.1 ++ (List.replicate (run.2 - run.1) 0 ++
      gs.drop run.2) := by
  have hdrop : (gs.drop run.1).drop (run.2 - run.1) = gs.drop run.2 := by
    rw [List.drop_drop, Nat.add_sub_of_le h.le]
  rw [← h.zero, ← hdrop, List.take_append_drop, List.take_append_drop]

theorem flatMap_replicate_zero (n : ℕ) :
    (List.replicate n 0).flatMap groupBytes = List.replicate (2 * n) 0 := by
  induction n with
  | zero => rfl
  | succ n ih =>
      rw [List.replicate_succ, List.flatMap_cons, ih,
        show 2 * (n + 1) = 2 * n + 1 + 1 by omega, List.replicate_succ,
        List.replicate_succ]
      rfl

theorem parseIPv6_of_digit {text : List Char} {ip : IP} {ellipsis : Option ℕ}
    (hc : c ≠ ':')
    (hread : parseGroups 8 [] none (c :: text) = some (ip, ellipsis, [])) :
    parseIPv6 (c :: text) = expandEllipsis ip ellipsis := by
  cases text with
  | nil => simp [parseIPv6, hread]
  | cons c' text => simp [parseIPv6, hc, hread]

theorem parseIPv6_plain (hlen : gs.length = 8) (hlt : ∀ g ∈ gs, g < 65536) :
    parseIPv6 (groupsString gs).toList = some (gs.flatMap groupBytes) := by
  have hgs : gs ≠ [] := by
    intro hnil
    simp [hnil] at hlen
  obtain ⟨c, text, htext, hc⟩ := exists_cons_groupsString hgs
  have hbytes : (gs.flatMap groupBytes).length = 16 := by
    rw [flatMap_groupBytes_length, hlen]
  have hread := @parseGroups_groupsString gs 8 [] none hgs hlt hlen.le
  rw [htext] at hread ⊢
  rw [parseIPv6_of_digit (ne_colon_of_hexDigit hc) hread]
  simp [expandEllipsis, ipv6Len, hbytes]

theorem expandEllipsis_split {n : ℕ} (hn : 0 < n)
    (hlen : pre.length + n + post.length = 8) :
    expandEllipsis (pre.flatMap groupBytes ++ post.flatMap groupBytes)
        (some (pre.flatMap groupBytes).length) =
      some ((pre ++ (List.replicate n 0 ++ post)).flatMap groupBytes) := by
  have hpre := flatMap_groupBytes_length pre
  have hpost := flatMap_groupBytes_length post
  have hfill : 16 - (2 * pre.length + 2 * post.length) = 2 * n := by omega
  simp only [expandEllipsis, ipv6Len, List.length_append, hpre, hpost, hfill]
  rw [if_pos (by omega), ← hpre, List.take_left, List.drop_left,
    List.flatMap_append, List.flatMap_append, flatMap_replicate_zero,
    List.append_assoc]

theorem parseIPv6_abbreviated {n : ℕ} (hn : 1 < n)
    (hlt : ∀ g ∈ pre ++ post, g < 65536)
    (hlen : pre.length + n + post.length = 8) :
    parseIPv6 ((groupsString pre).toList ++
        ':' :: ':' :: (groupsString post).toList) =
      some ((pre ++ (List.replicate n 0 ++ post)).flatMap groupBytes) := by
  have hexpand := expandEllipsis_split (by omega) hlen
  rcases eq_or_ne pre [] with rfl | hpre
  · have hempty : (groupsString []).toList = [] := rfl
    rw [hempty, List.nil_append]
    rcases eq_or_ne post [] with rfl | hpost
    · rw [hempty, ← hexpand]
      rfl
    · obtain ⟨c, text, htext, hc⟩ := exists_cons_groupsString hpost
      have hread := @parseGroups_groupsString post 8 [] (some 0) hpost
        (fun g hg => hlt g (List.mem_append_right _ hg)) (by omega)
      rw [← hexpand]
      rw [htext] at hread ⊢
      simp [parseIPv6, hread]
  · obtain ⟨c, text, htext, hc⟩ := exists_cons_groupsString hpre
    have hread := @parseGroups_abbreviated pre post 8 [] hpre hlt (by omega)
    rw [← hexpand]
    rw [htext, List.cons_append] at hread ⊢
    rw [parseIPv6_of_digit (ne_colon_of_hexDigit hc) hread]
    rfl

theorem parseIPv6_ipv6String {ip : IP} (hlen : ip.length = 16) :
    parseIPv6 (ipv6String ip).toList = some ip := by
  have hgroups : (groups ip).length = 8 := by rw [groups_length, hlen]
  have hbytes := flatMap_groups ip (by rw [hlen])
  have hrun : ZeroGroups (groups ip) (longestZeros (groups ip) 8 0 (0, 0)) :=
    longestZeros_spec ⟨le_rfl, Nat.zero_le _, rfl⟩
  have hsplit := hrun.split
  rw [ipv6String]
  split_ifs with hshort
  · rw [parseIPv6_plain hgroups (groups_lt ip), hbytes]
  · have hcount := congrArg List.length hsplit
    simp only [List.length_append, List.length_replicate] at hcount
    rw [hgroups] at hcount
    have htext := @parseIPv6_abbreviated
      ((groups ip).take (longestZeros (groups ip) 8 0 (0, 0)).1)
      ((groups ip).drop (longestZeros (groups ip) 8 0 (0, 0)).2)
      _ (not_le.mp hshort) (by
        intro g hg
        rcases List.mem_append.mp hg with hg | hg
        · exact groups_lt ip g (List.mem_of_mem_take hg)
        · exact groups_lt ip g (List.mem_of_mem_drop hg)) (by omega)
    rw [← hsplit, hbytes] at htext
    simpa using htext

/-! ## Networks -/

theorem suffix_of_scanDigits {digit : Char → Option ℕ} {base n m : ℕ}
    {rest : List Char} (h : scanDigits digit base n s = some (m, rest)) :
    rest <:+ s := by
  induction s generalizing n with
  | nil =>
      simp only [scanDigits, Option.some.injEq, Prod.mk.injEq] at h
      rw [← h.2]
  | cons c s ih =>
      rw [scanDigits] at h
      cases hc : digit c with
      | none =>
          simp only [hc, Option.some.injEq, Prod.mk.injEq] at h
          rw [← h.2]
      | some d =>
          simp only [hc] at h
          split_ifs at h
          exact (ih h).trans (List.suffix_cons c s)

theorem suffix_of_parseOctet {rest : List Char} {b : UInt8}
    (h : parseOctet s = some (b, rest)) : rest <:+ s := by
  unfold parseOctet at h
  cases hread : dtoi s with
  | none => simp [hread] at h
  | some read =>
      obtain ⟨n, rest'⟩ := read
      simp only [hread] at h
      split_ifs at h
      obtain ⟨_, rfl⟩ := Prod.mk.inj (Option.some.inj h)
      unfold dtoi scanNumber at hread
      split_ifs at hread
      exact suffix_of_scanDigits hread

theorem parseIPv4_eq_none (hs : '.' ∉ s) : parseIPv4 s = none := by
  unfold parseIPv4
  cases hfirst : parseOctet s with
  | none => rfl
  | some first =>
      obtain ⟨a, rest⟩ := first
      have hrest := suffix_of_parseOctet hfirst
      have hdot : parseDotOctet rest = none := by
        unfold parseDotOctet
        split
        · exact absurd (hrest.mem List.mem_cons_self) hs
        · rfl
      simp [hdot]

theorem isGroupChar_of_mem_ipv6String {ip : IP}
    (hc : c ∈ (ipv6String ip).toList) : IsGroupChar c := by
  rw [ipv6String] at hc
  split_ifs at hc with hshort
  · exact isGroupChar_of_mem_groupsString hc
  · simp only [String.toList_append, List.mem_append] at hc
    rcases hc with (hc | hc) | hc
    · exact isGroupChar_of_mem_groupsString hc
    · have hcolon : c = ':' := by simpa using hc
      exact Or.inr hcolon
    · exact isGroupChar_of_mem_groupsString hc

theorem notMem_ipv6String {ip : IP} (hc : ¬ IsGroupChar c) :
    c ∉ (ipv6String ip).toList :=
  fun hmem => hc (isGroupChar_of_mem_ipv6String hmem)

variable {n : IPNet} {ones : ℕ}

theorem string_eq {ip : IP} {len : ℕ}
    (hnumber : networkNumberAndMask n = (ip, onesMask ones len))
    (hip : ip ≠ []) (hones : ones ≤ 8 * len) :
    n.string.toList = (ipString ip).toList ++ '/' :: (toString ones).toList := by
  simp only [IPNet.string, hnumber, simpleMaskLength_onesMask hones]
  rw [if_neg hip, String.toList_append, String.toList_append, List.append_assoc]
  rfl

theorem parseCIDR_string_v6 (hlen : n.ip.length = 16) (hto4 : to4 n.ip = none)
    (hnumber : networkNumberAndMask n = (n.ip, onesMask ones 16))
    (hones : ones ≤ 128) :
    parseCIDR n.string =
      some ⟨land n.ip (onesMask ones 16), onesMask ones 16⟩ := by
  have hip : n.ip ≠ [] := by
    intro hnil
    simp [hnil] at hlen
  have htext := string_eq hnumber hip (show ones ≤ 8 * 16 by omega)
  have haddr : ipString n.ip = ipv6String n.ip := by
    rw [ipString, if_neg hip, hto4]
    simp [hlen, ipv6Len]
  have hsize := @dtoi_toString [] ones (by omega) rfl
  rw [List.append_nil] at hsize
  have hmask : cidrMask ones (8 * ipv6Len) = onesMask ones 16 :=
    cidrMask_eq_onesMask (Or.inr rfl) (show ones ≤ 8 * 16 by omega)
  have hmasked : ipMask n.ip (onesMask ones 16) =
      land n.ip (onesMask ones 16) := by
    simp [ipMask, hlen, ipv4Len]
  simp only [parseCIDR, htext, haddr,
    takeWhile_slash (notMem_ipv6String (show ¬ IsGroupChar '/' by
      simp [IsGroupChar]; decide)), List.drop_left,
    parseIPv4_eq_none (notMem_ipv6String (show ¬ IsGroupChar '.' by
      simp [IsGroupChar]; decide)), parseIPv6_ipv6String hlen,
    Option.map_some, hsize, hmask, hmasked]
  rw [if_neg (by rw [ipv6Len]; omega)]

theorem IPNet.Comparable.parseCIDR_string (h : n.Comparable) :
    parseCIDR n.string =
      some ⟨land (norm n.ip) (onesMask n.matchLen (norm n.ip).length),
        onesMask n.matchLen (norm n.ip).length⟩ := by
  have hle := h.matchLen_le
  have hnumber := h.number
  rcases norm_length h.valid with hlen | hlen
  · obtain ⟨a, b, c, d, heq⟩ : ∃ a b c d, norm n.ip = [a, b, c, d] := by
      match norm n.ip, hlen with
      | [a, b, c, d], _ => exact ⟨a, b, c, d, rfl⟩
    rw [heq] at hle hnumber ⊢
    have hsame : n.string =
        IPNet.string ⟨[a, b, c, d], onesMask n.matchLen 4⟩ := by
      have hnumber' : networkNumberAndMask
          ⟨[a, b, c, d], onesMask n.matchLen 4⟩ = networkNumberAndMask n := by
        rw [hnumber]
        simp [networkNumberAndMask, to4, ipv4Len]
      rw [IPNet.string, IPNet.string, hnumber']
    rw [hsame]
    exact Net.parseCIDR_string a b c d hle
  · have hto4 : to4 n.ip = none := by
      cases hmapped : to4 n.ip with
      | none => rfl
      | some ip4 =>
          have hshort := to4_length hmapped
          rw [norm, hmapped, Option.getD_some, hshort] at hlen
          omega
    have heq : norm n.ip = n.ip := by rw [norm, hto4, Option.getD_none]
    rw [heq] at hlen hle hnumber ⊢
    rw [hlen] at hle hnumber ⊢
    exact parseCIDR_string_v6 hlen hto4 hnumber hle

/-! ## What is read -/

theorem land_land (a m : List UInt8) : land (land a m) m = land a m := by
  induction a generalizing m with
  | nil => rfl
  | cons x a ih =>
      cases m with
      | nil => rfl
      | cons y m =>
          change (x &&& y &&& y) :: land (land a m) m = (x &&& y) :: land a m
          rw [ih, UInt8.and_assoc, UInt8.and_self]

def IPNet.Mapped (n : IPNet) : Prop :=
  n.ip.length = 16 ∧ to4 n.ip ≠ none

instance (n : IPNet) : Decidable n.Mapped :=
  inferInstanceAs (Decidable (_ ∧ _))

theorem IPNet.Block.canonical (h : n.Block) (hn : ¬ n.Mapped) : n.Canonical := by
  refine ⟨?_, h.prefixLen_le, h.mask_eq, h.hostZero⟩
  rcases h.length with h4 | h16
  · exact Or.inl h4
  · refine Or.inr ⟨h16, ?_⟩
    by_contra hto4
    exact hn ⟨h16, hto4⟩

theorem IPNet.OneHost.canonical (h : n.OneHost) (hn : ¬ n.Mapped) :
    n.Canonical := by
  have hto4 : to4 n.ip = none := by
    by_contra hsome
    exact hn ⟨h.length, hsome⟩
  have hones : n.mask = onesMask 128 16 := by
    rw [h.mask_eq, hto4]
    rfl
  have hpre : n.prefixLen = 128 := by
    rw [IPNet.prefixLen, hones, maskSize_onesMask (by decide)]
  refine ⟨Or.inr ⟨h.length, hto4⟩, ?_, ?_, ?_⟩
  · rw [hpre, h.length]
  · rw [hpre, h.length]
    exact hones
  · have hfull : 128 = 8 * n.ip.length := by rw [h.length]
    rw [hones, ← h.length]
    apply bits_injective
    rw [bits_land_onesMask hfull.le, hfull, ← bits_length, List.take_length,
      Nat.sub_self, List.replicate_zero, List.append_nil]

theorem IPNet.Block.prefixMask (h : n.Block) : n.PrefixMask := by
  have hlen : n.mask.length = n.ip.length := by
    rw [h.mask_eq, onesMask_length]
  refine ⟨?_, ?_⟩
  · rw [hlen]
    exact h.prefixLen_le
  · rw [hlen]
    exact h.mask_eq

theorem IPNet.Block.comparable (h : n.Block) : n.Comparable := by
  rcases h.prefixMask.comparable with hnone | hcomparable
  · exfalso
    have hlen : n.mask.length = n.ip.length := by
      rw [h.mask_eq, onesMask_length]
    have hvalid : ValidIP n.ip := h.length
    have hnorm : (to4 n.ip).getD n.ip = norm n.ip := rfl
    have hnil : norm n.ip ≠ [] := by
      intro heq
      have hcases := norm_length hvalid
      rw [heq, List.length_nil] at hcases
      omega
    rw [Net.networkNumberAndMask, hnorm, hlen] at hnone
    rcases h.length with h4 | h16
    · simp [norm_of_length_four h4, h4, ipv4Len] at hnone
      simp [hnone] at h4
    · rcases norm_length hvalid with hshort | hlong
      · simp [h16, hshort, ipv4Len, ipv6Len, hnil] at hnone
      · simp [h16, hlong, ipv4Len, ipv6Len, hnil] at hnone
  · exact hcomparable

theorem block_of_masked {ip : IP} {len : ℕ} (hlen : ip.length = len)
    (hfamily : len = 4 ∨ len = 16) (hones : ones ≤ 8 * len) :
    IPNet.Block ⟨land ip (onesMask ones len), onesMask ones len⟩ := by
  have hip : (land ip (onesMask ones len)).length = len := by
    rw [land_length, onesMask_length, hlen, Nat.min_self]
  have hpre : IPNet.prefixLen
      ⟨land ip (onesMask ones len), onesMask ones len⟩ = ones := by
    rw [IPNet.prefixLen, maskSize_onesMask hones]
  constructor
  · rw [hip]
    exact hfamily
  · rw [hpre, hip]
    exact hones
  · rw [hpre, hip]
  · exact land_land _ _

theorem parseIPv4_mapped {ip : IP} (h : parseIPv4 s = some ip) :
    ip.take 12 = v4InV6Prefix := by
  unfold parseIPv4 at h
  simp only [Option.bind_eq_bind, Option.bind_eq_some_iff] at h
  obtain ⟨⟨a, s⟩, _, ⟨b, s⟩, _, ⟨c, s⟩, _, ⟨d, s⟩, _, h⟩ := h
  split_ifs at h
  obtain rfl := Option.some.inj h
  rfl

theorem parseCIDR_block {text : String} (h : parseCIDR text = some n) :
    n.Block := by
  unfold parseCIDR at h
  simp only at h
  split at h
  · cases h
  · split at h
    · next ip len ones hparsed hsize =>
        split at h
        · cases h
        · next hones =>
            simp only [Option.some.injEq] at h
            rw [← h]
            split at hparsed
            · next ip4 hip4 =>
                obtain ⟨rfl, rfl⟩ := Prod.mk.inj (Option.some.inj hparsed)
                have hones : ones ≤ 8 * 4 := Nat.le_of_not_lt hones
                have hlen := parseIPv4_length hip4
                have hmasked : ipMask ip4 (onesMask ones 4) =
                    land (ip4.drop 12) (onesMask ones 4) := by
                  simp [ipMask, hlen, ipv4Len, ipv6Len, parseIPv4_mapped hip4]
                rw [ipv4Len, cidrMask_eq_onesMask (Or.inl rfl) hones, hmasked]
                exact block_of_masked (by rw [List.length_drop, hlen])
                  (Or.inl rfl) hones
            · simp only [Option.map_eq_some_iff, Prod.mk.injEq] at hparsed
              obtain ⟨ip6, hip6, rfl, rfl⟩ := hparsed
              have hones : ones ≤ 8 * 16 := Nat.le_of_not_lt hones
              have hlen := parseIPv6_length hip6
              have hmasked : ipMask ip6 (onesMask ones 16) =
                  land ip6 (onesMask ones 16) := by
                simp [ipMask, hlen, ipv4Len]
              rw [ipv6Len, cidrMask_eq_onesMask (Or.inr rfl) hones, hmasked]
              exact block_of_masked hlen (Or.inr rfl) hones
    · cases h

theorem IPNet.Comparable.parseCIDR_string_iff (h : n.Comparable) :
    parseCIDR n.string = some n ↔ n.Canonical := by
  constructor
  · intro hread
    refine (parseCIDR_block hread).canonical ?_
    intro hmapped
    obtain ⟨ip4, hip4⟩ := Option.ne_none_iff_exists'.mp hmapped.2
    have hlen : (norm n.ip).length = 4 := by
      rw [norm, hip4, Option.getD_some]
      exact to4_length hip4
    rw [h.parseCIDR_string, hlen] at hread
    have hip := congrArg (fun n => n.ip.length) (Option.some.inj hread)
    simp only [land_length, hlen, onesMask_length, hmapped.1] at hip
    omega
  · intro hcanonical
    have hmatch := hcanonical.familyMask.matchLen
    rw [h.parseCIDR_string, hmatch, hcanonical.norm_ip,
      ← hcanonical.mask_eq, hcanonical.hostZero]

end ContivVPP.Net
