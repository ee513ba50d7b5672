import ContivVPP.SessionTable
import ContivVPP.SessionTraces
import ContivVPP.Texts

/-!
# Tags of session rules

A session rule is tagged with the hash of a name: the namespace, the direction,
the identifier of the Contiv rule and, for rules that are installed in halves,
a suffix for the half.  The names are read back from both ends.  The namespace
stands before the first dash; an identifier has a colon after its last dash and
a suffix has none, so it is seen whether there is a suffix.
-/

namespace ContivVPP.SessionCache

open Net Renderer GoMap

/-! ## Names -/

def Direction.text : Direction → String
  | .ingress => "ingress"
  | .egress => "egress"

def hashedName (nsIndex : UInt32) (dir : Direction) (id suffix : String) :
    String :=
  toString nsIndex.toNat ++ "-" ++ (dir.text ++ "-" ++ (id ++ suffix))

def Direction.halves : Direction → List String
  | .ingress => ["-IPv4-1/2", "-IPv4-2/2", "-IPv6-1/2", "-IPv6-2/2"]
  | .egress => ["-1/2", "-2/2"]

def ColonLast (id : String) : Prop :=
  ∃ a b, id = a ++ b ∧ ':' ∈ b.toList ∧ '-' ∉ b.toList

theorem dash_notMem_repr (n : ℕ) : '-' ∉ n.repr.toList := fun hmem =>
  absurd (Texts.isDigit_of_mem_repr hmem) (by decide)

theorem hashedName_inj {ns ns' : UInt32} {dir dir' : Direction}
    {id id' suffix suffix' : String}
    (h : hashedName ns dir id suffix = hashedName ns' dir' id' suffix') :
    ns = ns' ∧ dir = dir' ∧ id ++ suffix = id' ++ suffix' := by
  have hdir : ∀ dir : Direction, '-' ∉ dir.text.toList := by
    intro dir
    cases dir <;> decide
  have htext : dir.text = dir'.text → dir = dir' := by
    cases dir <;> cases dir' <;> decide
  obtain ⟨hns, h⟩ := (Texts.sep_inj_left rfl (dash_notMem_repr _)
    (dash_notMem_repr _)).mp h
  obtain ⟨hdirs, hids⟩ :=
    (Texts.sep_inj_left rfl (hdir dir) (hdir dir')).mp h
  exact ⟨UInt32.toNat_inj.mp (Texts.repr_inj.mp hns), htext hdirs, hids⟩

theorem ColonLast.ne_append_half {id id' half : String} {dir : Direction}
    (h : ColonLast id) (hhalf : half ∈ dir.halves) : id ≠ id' ++ half := by
  obtain ⟨a, b, rfl, hcolon, hdash⟩ := h
  obtain ⟨u, v, hv, huv⟩ : ∃ u v : List Char, ':' ∉ v ∧
      half.toList = u ++ '-' :: v := by
    cases dir with
    | ingress =>
        simp only [Direction.halves, List.mem_cons, List.not_mem_nil,
          or_false] at hhalf
        rcases hhalf with rfl | rfl | rfl | rfl
        · exact ⟨"-IPv4".toList, "1/2".toList, by decide, rfl⟩
        · exact ⟨"-IPv4".toList, "2/2".toList, by decide, rfl⟩
        · exact ⟨"-IPv6".toList, "1/2".toList, by decide, rfl⟩
        · exact ⟨"-IPv6".toList, "2/2".toList, by decide, rfl⟩
    | egress =>
        simp only [Direction.halves, List.mem_cons, List.not_mem_nil,
          or_false] at hhalf
        rcases hhalf with rfl | rfl
        · exact ⟨[], "1/2".toList, by decide, rfl⟩
        · exact ⟨[], "2/2".toList, by decide, rfl⟩
  intro heq
  rw [← String.toList_inj, String.toList_append, String.toList_append, huv,
    ← List.append_assoc] at heq
  -- Either `b` is part of what follows the last dash of the half, or the half
  -- with its dash is part of `b`.
  rcases List.append_eq_append_iff.mp heq with
    ⟨w, _, hb⟩ | ⟨w, _, hv'⟩
  · exact hdash (by rw [hb]; simp)
  · cases w with
    | nil =>
        rw [List.nil_append] at hv'
        exact hdash (by rw [← hv']; simp)
    | cons c w =>
        rw [List.cons_append, List.cons.injEq] at hv'
        exact hv (by rw [hv'.2]; simp [hcolon])

theorem append_half_inj {id id' suffix suffix' : String} {dir : Direction}
    (h : ColonLast id) (h' : ColonLast id')
    (hsuffix : suffix = "" ∨ suffix ∈ dir.halves)
    (hsuffix' : suffix' = "" ∨ suffix' ∈ dir.halves)
    (heq : id ++ suffix = id' ++ suffix') : id = id' ∧ suffix = suffix' := by
  rcases hsuffix with rfl | hhalf
  · rw [String.append_empty] at heq
    rcases hsuffix' with rfl | hhalf'
    · rw [String.append_empty] at heq
      exact ⟨heq, rfl⟩
    · exact absurd heq (h.ne_append_half hhalf')
  · rcases hsuffix' with rfl | hhalf'
    · rw [String.append_empty] at heq
      exact absurd heq.symm (h'.ne_append_half hhalf)
    · have hlength : suffix.toList.length = suffix'.toList.length := by
        have hall : ∀ s ∈ dir.halves, ∀ s' ∈ dir.halves,
            s.toList.length = s'.toList.length := by
          cases dir <;> decide
        exact hall suffix hhalf suffix' hhalf'
      rw [← String.toList_inj, String.toList_append, String.toList_append] at heq
      obtain ⟨hid, hsuffix⟩ := List.append_inj' heq hlength
      exact ⟨String.toList_inj.mp hid, String.toList_inj.mp hsuffix⟩

/-! ## The parts of a rule -/

def Direction.split : Direction → SessionRule → List (String × SessionRule)
  | .egress, sessionRule =>
      let half := { sessionRule with rmtPlen := 1 }
      [("-1/2", half), ("-2/2", half.upperHalf)]
  | .ingress, sessionRule =>
      let half6 := { sessionRule with rmtPlen := 1 }
      let half4 := { half6 with isIP4 := 1 }
      [("-IPv4-1/2", half4), ("-IPv4-1/2", half4),
        ("-IPv4-2/2", half4.upperHalf), ("-IPv6-1/2", half6),
        ("-IPv6-2/2", half6.upperHalf)]

def wholeRule (nsIndex : UInt32) (podIP : IPNet) (rule : ContivRule) :
    Direction → SessionRule
  | .egress => egressRule podIP rule
  | .ingress => ingressRule nsIndex rule

def parts (dir : Direction) (nsIndex : UInt32) (podIP : IPNet)
    (rule : ContivRule) : List (String × SessionRule) :=
  if (dir.remoteNetwork rule).ip.length = 0 ∧ rule.destPort = 0 ∧
      rule.action = .permit then []
  else if (dir.remoteNetwork rule).ip.length = 0 then
    dir.split (wholeRule nsIndex podIP rule dir)
  else [("", wholeRule nsIndex podIP rule dir)]

section Parts

variable {md5Hash : String → String} {tagPrefix : String} {dir : Direction}
  {nsIndex : UInt32} {podIP : IPNet} {rule : ContivRule}
  {part part' : String × SessionRule}

theorem convertRule_eq : convertRule md5Hash dir nsIndex podIP tagPrefix rule =
      (parts dir nsIndex podIP rule).map fun part => part.2.withTag md5Hash
        tagPrefix (hashedName nsIndex dir rule.id part.1) := by
  have hname : ∀ sep suffix : String, sep = "-" ++ (dir.text ++ "-") →
      toString nsIndex.toNat ++ sep ++ rule.id ++ suffix =
        hashedName nsIndex dir rule.id suffix := by
    intro sep suffix hsep
    simp only [hashedName, hsep, String.append_assoc]
  have hwhole : ∀ sep : String, sep = "-" ++ (dir.text ++ "-") →
      toString nsIndex.toNat ++ sep ++ rule.id =
        hashedName nsIndex dir rule.id "" := by
    intro sep hsep
    rw [← hname sep "" hsep, String.append_empty]
  unfold parts
  by_cases hskip : (dir.remoteNetwork rule).ip.length = 0 ∧
      rule.destPort = 0 ∧ rule.action = .permit
  · rw [if_pos hskip]
    cases dir <;> exact if_pos hskip
  · rw [if_neg hskip]
    by_cases hempty : (dir.remoteNetwork rule).ip.length = 0
    · rw [if_pos hempty]
      cases dir with
      | egress =>
          refine (if_neg hskip).trans ((if_pos hempty).trans ?_)
          simp only [Direction.split, wholeRule, List.map_cons, List.map_nil,
            hname "-egress-" _ rfl]
      | ingress =>
          refine (if_neg hskip).trans ((if_pos hempty).trans ?_)
          simp only [Direction.split, wholeRule, List.map_cons, List.map_nil,
            hname "-ingress-" _ rfl]
    · rw [if_neg hempty]
      cases dir with
      | egress =>
          refine (if_neg hskip).trans ((if_neg hempty).trans ?_)
          simp only [wholeRule, List.map_cons, List.map_nil,
            hwhole "-egress-" rfl]
      | ingress =>
          refine (if_neg hskip).trans ((if_neg hempty).trans ?_)
          simp only [wholeRule, List.map_cons, List.map_nil,
            hwhole "-ingress-" rfl]

theorem mem_parts (h : part ∈ parts dir nsIndex podIP rule) :
    ((dir.remoteNetwork rule).ip.length = 0 ∧
      part ∈ dir.split (wholeRule nsIndex podIP rule dir)) ∨
    ((dir.remoteNetwork rule).ip.length ≠ 0 ∧
      part = ("", wholeRule nsIndex podIP rule dir)) := by
  unfold parts at h
  split_ifs at h with hskip hempty
  · cases h
  · exact Or.inl ⟨hempty, h⟩
  · exact Or.inr ⟨hempty, List.mem_singleton.mp h⟩

theorem suffix_of_mem_split {r : SessionRule} (h : part ∈ dir.split r) :
    part.1 ∈ dir.halves := by
  cases dir <;>
    simp only [Direction.split, List.mem_cons, List.not_mem_nil, or_false] at h
  · rcases h with rfl | rfl | rfl | rfl | rfl <;> simp [Direction.halves]
  · rcases h with rfl | rfl <;> simp [Direction.halves]

theorem split_inj {r : SessionRule} (h : part ∈ dir.split r)
    (h' : part' ∈ dir.split r) (hsuffix : part.1 = part'.1) :
    part = part' := by
  cases dir <;>
    simp only [Direction.split, List.mem_cons, List.not_mem_nil, or_false] at h h'
  · rcases h with rfl | rfl | rfl | rfl | rfl <;>
      rcases h' with rfl | rfl | rfl | rfl | rfl <;> simp_all
  · rcases h with rfl | rfl <;> rcases h' with rfl | rfl <;> simp_all

theorem tag_of_mem_split {r : SessionRule} (h : part ∈ dir.split r) :
    part.2.tag = r.tag := by
  cases dir <;>
    simp only [Direction.split, List.mem_cons, List.not_mem_nil, or_false] at h
  · rcases h with rfl | rfl | rfl | rfl | rfl <;> rfl
  · rcases h with rfl | rfl <;> rfl

theorem suffix_of_mem_parts (h : part ∈ parts dir nsIndex podIP rule) :
    part.1 = "" ∨ part.1 ∈ dir.halves := by
  rcases mem_parts h with ⟨_, hsplit⟩ | ⟨_, rfl⟩
  · exact Or.inr (suffix_of_mem_split hsplit)
  · exact Or.inl rfl

theorem parts_inj (h : part ∈ parts dir nsIndex podIP rule)
    (h' : part' ∈ parts dir nsIndex podIP rule) (hsuffix : part.1 = part'.1) :
    part = part' := by
  rcases mem_parts h with ⟨hempty, hsplit⟩ | ⟨hempty, rfl⟩
  · rcases mem_parts h' with ⟨_, hsplit'⟩ | ⟨hne, _⟩
    · exact split_inj hsplit hsplit' hsuffix
    · exact absurd hempty hne
  · rcases mem_parts h' with ⟨hzero, _⟩ | ⟨_, rfl⟩
    · exact absurd hzero hempty
    · rfl

theorem tag_of_mem_parts (h : part ∈ parts dir nsIndex podIP rule) :
    part.2.tag = zeroBytes 64 := by
  have hwhole : (wholeRule nsIndex podIP rule dir).tag = zeroBytes 64 := by
    cases dir <;> rfl
  rcases mem_parts h with ⟨_, hsplit⟩ | ⟨_, rfl⟩
  · rw [tag_of_mem_split hsplit, hwhole]
  · exact hwhole

end Parts

/-! ## Tags -/

def sessionRuleTagPrefix : String := "contiv/vpp-policy-"

/-- Whether `dumpRules` takes a rule for its own.  The tag ends before its
first zero byte; without one the slice is out of range. -/
def ownTag (tag : Bytes 64) : Option Bool :=
  (tag.toList.findIdx? (· == 0)).map fun tagLen =>
    (utf8 sessionRuleTagPrefix).isPrefixOf (tag.toList.take tagLen)

/-- `getMD5Hash` encodes sixteen bytes in hexadecimal digits. -/
def HexDigest (md5Hash : String → String) : Prop :=
  ∀ text, ∃ digest : List UInt8, digest.length = 16 ∧
    md5Hash text = hexString digest

theorem utf8_append (a b : String) : utf8 (a ++ b) = utf8 a ++ utf8 b := by
  simp [utf8]

theorem utf8_inj {a b : String} : utf8 a = utf8 b ↔ a = b := by
  refine ⟨fun h => ?_, fun h => by rw [h]⟩
  apply String.toByteArray_inj.mp
  rw [← String.utf8Encode_toList, ← String.utf8Encode_toList, List.utf8Encode,
    List.utf8Encode]
  exact congrArg List.toByteArray h

theorem utf8_hexByte (b : UInt8) :
    (utf8 (hexByte b)).length = 2 ∧ 0 ∉ utf8 (hexByte b) := by
  have hdigit : ∀ n < 16, (String.utf8EncodeChar (Nat.digitChar n)).length = 1 ∧
      0 ∉ String.utf8EncodeChar (Nat.digitChar n) := by decide
  have hlt := b.toNat_lt
  have hhigh := hdigit (b.toNat / 16) (by omega)
  have hlow := hdigit (b.toNat % 16) (by omega)
  simp [utf8, hexByte, hhigh, hlow]

theorem utf8_hexString (bytes : List UInt8) :
    (utf8 (hexString bytes)).length = 2 * bytes.length ∧
      0 ∉ utf8 (hexString bytes) := by
  induction bytes with
  | nil => simp [hexString, utf8]
  | cons b bytes ih =>
      have hcons : hexString (b :: bytes) = hexByte b ++ hexString bytes := by
        simp [hexString]
      have hbyte := utf8_hexByte b
      rw [hcons, utf8_append, List.length_append, List.mem_append]
      refine ⟨?_, not_or.mpr ⟨hbyte.2, ih.2⟩⟩
      rw [hbyte.1, ih.1, List.length_cons]
      omega

section Tags

variable {md5Hash : String → String} (hmd5 : HexDigest md5Hash)

include hmd5

theorem utf8_md5Hash (name : String) :
    (utf8 (md5Hash name)).length = 32 ∧ 0 ∉ utf8 (md5Hash name) := by
  obtain ⟨digest, hlength, heq⟩ := hmd5 name
  have hhex := utf8_hexString digest
  rw [heq]
  exact ⟨by rw [hhex.1, hlength], hhex.2⟩

theorem withTag_toList {rule : SessionRule} (htag : rule.tag = zeroBytes 64)
    (name : String) :
    (rule.withTag md5Hash sessionRuleTagPrefix name).tag.toList =
      utf8 sessionRuleTagPrefix ++ utf8 (md5Hash name) ++
        List.replicate 14 0 := by
  have hlength := (utf8_md5Hash hmd5 name).1
  have hpre : (utf8 sessionRuleTagPrefix).length = 18 := by decide
  have hzero : (zeroBytes 64).toList = List.replicate 64 0 := rfl
  change (utf8 (sessionRuleTagPrefix ++ md5Hash name) ++ rule.tag.toList.drop
    (utf8 (sessionRuleTagPrefix ++ md5Hash name)).length).take 64 = _
  rw [htag, hzero, utf8_append, List.length_append, hpre, hlength,
    List.drop_replicate, List.take_of_length_le]
  simp [hpre, hlength]

theorem md5Hash_eq_of_tag {rule rule' : SessionRule}
    (htag : rule.tag = zeroBytes 64) (htag' : rule'.tag = zeroBytes 64)
    {name name' : String}
    (h : (rule.withTag md5Hash sessionRuleTagPrefix name).tag =
      (rule'.withTag md5Hash sessionRuleTagPrefix name').tag) :
    md5Hash name = md5Hash name' := by
  have hlists := congrArg List.Vector.toList h
  rw [withTag_toList hmd5 htag, withTag_toList hmd5 htag'] at hlists
  exact utf8_inj.mp (List.append_cancel_left (List.append_cancel_right hlists))

theorem ownTag_withTag {rule : SessionRule} (htag : rule.tag = zeroBytes 64)
    (name : String) :
    ownTag (rule.withTag md5Hash sessionRuleTagPrefix name).tag = some true := by
  have hnonzero : 0 ∉ utf8 sessionRuleTagPrefix ++ utf8 (md5Hash name) := by
    rw [List.mem_append, not_or]
    exact ⟨by decide, (utf8_md5Hash hmd5 name).2⟩
  have hindex : (utf8 sessionRuleTagPrefix ++ utf8 (md5Hash name) ++
      List.replicate 14 0).findIdx? (· == 0) =
        some (utf8 sessionRuleTagPrefix ++ utf8 (md5Hash name)).length := by
    rw [List.findIdx?_append]
    have hnone : (utf8 sessionRuleTagPrefix ++ utf8 (md5Hash name)).findIdx?
        (· == 0) = none := by
      rw [List.findIdx?_eq_none_iff]
      intro b hb
      rw [beq_eq_false_iff_ne]
      intro heq
      exact hnonzero (heq ▸ hb)
    have hsome : (List.replicate 14 (0 : UInt8)).findIdx? (· == 0) =
        some 0 := by decide
    rw [hnone, hsome, Option.none_or, Option.map_some, Nat.zero_add]
  rw [ownTag, withTag_toList hmd5 htag, hindex, Option.map_some,
    List.take_left, Option.some.injEq, List.isPrefixOf_iff_prefix]
  exact List.prefix_append _ _

end Tags

/-! ## Identifiers -/

/-- The identifiers that `generateRules` makes: those of the denying rules, or
the identifier of a policy, which has a slash, continued up to the port. -/
def GeneratedID (id : String) : Prop :=
  id = "TCP:NONE" ∨ id = "UDP:NONE" ∨
    ∃ head protocol port, '/' ∈ head.toList ∧
      (protocol = "TCP" ∨ protocol = "UDP") ∧ '-' ∉ port.toList ∧
        id = head ++ "-" ++ (protocol ++ ":" ++ port)

theorem colonLast_append (a : String) {protocol port : String}
    (hprotocol : protocol = "TCP" ∨ protocol = "UDP")
    (hport : '-' ∉ port.toList) :
    ColonLast (a ++ (protocol ++ ":" ++ port)) := by
  refine ⟨a, _, rfl, by simp, ?_⟩
  rcases hprotocol with rfl | rfl <;> simp [hport]

theorem GeneratedID.colonLast {id : String} (h : GeneratedID id) :
    ColonLast id := by
  rcases h with rfl | rfl | ⟨head, protocol, port, _, hprotocol, hport, rfl⟩
  · exact ⟨"", "TCP:NONE", rfl, by decide, by decide⟩
  · exact ⟨"", "UDP:NONE", rfl, by decide, by decide⟩
  · exact colonLast_append _ hprotocol hport

def protocolText : ProtocolType → String
  | .tcp => "TCP"
  | .udp => "UDP"

theorem protocolText_cases (protocol : ProtocolType) :
    protocolText protocol = "TCP" ∨ protocolText protocol = "UDP" := by
  cases protocol <;> simp [protocolText]

def combinedHead (nsIndex rmtNsIndex : UInt32) : ProtocolType → String
  | .tcp => toString nsIndex.toNat ++ "-combined-" ++
      toString rmtNsIndex.toNat
  | .udp => "combined-" ++ toString rmtNsIndex.toNat

section CombinedID

variable {nsIndex rmtNsIndex rmtNsIndex' : UInt32} {port port' : String}
  {protocol protocol' : ProtocolType}

theorem combinedRuleID_eq : combinedRuleID nsIndex rmtNsIndex port protocol =
    combinedHead nsIndex rmtNsIndex protocol ++ "-" ++
      (protocolText protocol ++ ":" ++ port) := by
  cases protocol with
  | tcp =>
      have hsep : "-TCP:" = "-" ++ ("TCP" ++ ":") := rfl
      simp only [combinedRuleID, combinedHead, protocolText, hsep,
        String.append_assoc]
  | udp =>
      have hsep : "-UDP:" = "-" ++ ("UDP" ++ ":") := rfl
      simp only [combinedRuleID, combinedHead, protocolText, hsep,
        String.append_assoc]

theorem combinedRuleID_inj (hport : '-' ∉ port.toList)
    (hport' : '-' ∉ port'.toList)
    (h : combinedRuleID nsIndex rmtNsIndex port protocol =
      combinedRuleID nsIndex rmtNsIndex' port' protocol') :
    rmtNsIndex = rmtNsIndex' ∧ port = port' ∧ protocol = protocol' := by
  have hdash : ∀ (protocol : ProtocolType) (port : String), '-' ∉ port.toList →
        '-' ∉ (protocolText protocol ++ ":" ++ port).toList := by
    intro protocol port hport
    cases protocol <;> simp [protocolText, hport]
  have hcolon : ∀ protocol, ':' ∉ (protocolText protocol).toList := by
    intro protocol
    cases protocol <;> decide
  rw [combinedRuleID_eq, combinedRuleID_eq, Texts.sep_inj_right rfl
    (hdash _ _ hport) (hdash _ _ hport'), Texts.sep_inj_left rfl (hcolon _)
      (hcolon _)] at h
  obtain ⟨hhead, hprotocol, hports⟩ := h
  have hprotocols : protocol = protocol' := by
    revert hprotocol
    cases protocol <;> cases protocol' <;> decide
  subst hprotocols
  refine ⟨?_, hports, rfl⟩
  have hrmt : (toString rmtNsIndex.toNat).toList =
      (toString rmtNsIndex'.toNat).toList := by
    rw [← String.toList_inj] at hhead
    cases protocol <;> simpa [combinedHead] using hhead
  exact UInt32.toNat_inj.mp (Texts.repr_inj.mp (String.toList_inj.mp hrmt))

theorem slash_notMem_combinedRuleID (hport : '/' ∉ port.toList) :
    '/' ∉ (combinedRuleID nsIndex rmtNsIndex port protocol).toList := by
  have hdigits : ∀ n : ℕ, '/' ∉ Nat.toDigits 10 n := by
    intro n hmem
    rw [← Nat.toList_repr] at hmem
    exact absurd (Texts.isDigit_of_mem_repr hmem) (by decide)
  cases protocol <;> simp [combinedRuleID, toString, hdigits, hport]

theorem GeneratedID.ne_combinedRuleID {id : String} (h : GeneratedID id)
    (hport : '/' ∉ port.toList) :
    id ≠ combinedRuleID nsIndex rmtNsIndex port protocol := by
  have hdash : '-' ∈
      (combinedRuleID nsIndex rmtNsIndex port protocol).toList := by
    rw [combinedRuleID_eq]
    simp
  rintro rfl
  rcases h with heq | heq | ⟨head, protocol', port', hslash, _, _, heq⟩
  · rw [heq] at hdash
    exact absurd hdash (by decide)
  · rw [heq] at hdash
    exact absurd hdash (by decide)
  · apply slash_notMem_combinedRuleID hport
    rw [heq]
    simp [hslash]

end CombinedID

/-! ## The rules of a namespace -/

/-- The identifiers of each list are distinct and as they are generated. -/
structure DistinctIDs (nsConfig : NamespaceConfig) : Prop where
  egress : (nsConfig.egress.map ContivRule.id).Nodup
  ingress : (nsConfig.ingress.map ContivRule.id).Nodup
  egressGenerated : ∀ rule ∈ nsConfig.egress, GeneratedID rule.id
  ingressGenerated : ∀ rule ∈ nsConfig.ingress, GeneratedID rule.id

def installedRules (orders : RefreshOrders) (config : Config)
    (ns : UInt32) (nsConfig : NamespaceConfig) : Direction → List ContivRule
  | .egress => nsConfig.egress
  | .ingress => (range (orders.combine ns).config config).foldl
      (combineWith (orders.combine ns) ns nsConfig) nsConfig.ingress

section Installed

variable {orders : RefreshOrders} {config : Config} {ns : UInt32}
  {nsConfig : NamespaceConfig} {rule rule' : ContivRule}

/-- A combined rule is known by the remote namespace, the protocol and the text
for the port, which has neither dashes nor slashes. -/
theorem combined_of_mem_addedFor {o : CombineOrders}
    {rmt : UInt32 × NamespaceConfig}
    (h : rule ∈ addedFor o ns nsConfig rmt) :
    ∃ protocol action text port,
      rule = combinedRule ns rmt.1 rmt.2.ipAddr protocol action text port ∧
      '-' ∉ text.toList ∧ '/' ∉ text.toList ∧
      ((action = .permit ∧ text = port.toNat.repr) ∨
        (action = .deny ∧ text = "NONE" ∧ port = 0)) := by
  obtain ⟨protocol, h⟩ := mem_addedFor.mp h
  obtain ⟨ports, _, h⟩ := mem_addedRules.mp h
  rcases h with ⟨port, _, rfl⟩ | rfl
  · refine ⟨protocol, .permit, _, port, rfl, dash_notMem_repr _, ?_,
      Or.inl ⟨rfl, rfl⟩⟩
    exact fun hmem => absurd (Texts.isDigit_of_mem_repr hmem) (by decide)
  · exact ⟨protocol, .deny, "NONE", 0, rfl, by decide, by decide,
      Or.inr ⟨rfl, rfl, rfl⟩⟩

theorem addedFor_inj {o : CombineOrders} {rmt rmt' : UInt32 × NamespaceConfig}
    (hrmt : config.lookup rmt.1 = some rmt.2)
    (hrmt' : config.lookup rmt'.1 = some rmt'.2)
    (h : rule ∈ addedFor o ns nsConfig rmt)
    (h' : rule' ∈ addedFor o ns nsConfig rmt') (hid : rule.id = rule'.id) :
    rule = rule' := by
  obtain ⟨protocol, action, text, port, rfl, hdash, _, hkind⟩ :=
    combined_of_mem_addedFor h
  obtain ⟨protocol', action', text', port', rfl, hdash', _, hkind'⟩ :=
    combined_of_mem_addedFor h'
  obtain ⟨hrmts, htexts, rfl⟩ := combinedRuleID_inj hdash hdash' hid
  have hconfigs : rmt.2 = rmt'.2 := by
    rw [hrmts, hrmt'] at hrmt
    exact (Option.some.inj hrmt).symm
  have hnone : ∀ n : ℕ, n.repr ≠ "NONE" := by
    intro n heq
    have hmem : 'N' ∈ n.repr.toList := by
      rw [heq]
      decide
    exact absurd (Texts.isDigit_of_mem_repr hmem) (by decide)
  have hports : action = action' ∧ port = port' := by
    rcases hkind with ⟨rfl, rfl⟩ | ⟨rfl, rfl, rfl⟩ <;>
      rcases hkind' with ⟨rfl, rfl⟩ | ⟨rfl, rfl, rfl⟩
    · exact ⟨rfl, UInt16.toNat_inj.mp (Texts.repr_inj.mp htexts)⟩
    · exact absurd htexts (hnone _)
    · exact absurd htexts.symm (hnone _)
    · exact ⟨rfl, rfl⟩
  rw [hrmts, hconfigs, htexts, hports.1, hports.2]

theorem mem_installed_ingress
    (h : rule ∈ installedRules orders config ns nsConfig .ingress) :
    rule ∈ nsConfig.ingress ∨ ∃ rmt : UInt32 × NamespaceConfig,
      config.lookup rmt.1 = some rmt.2 ∧
        rule ∈ addedFor (orders.combine ns) ns nsConfig rmt :=
  (mem_foldl_combineWith h).imp_right fun ⟨rmt, hrmt, hadded⟩ =>
    ⟨rmt, mem_range.mp hrmt, hadded⟩

variable {dir : Direction} (hids : DistinctIDs nsConfig)

include hids

theorem DistinctIDs.colonLast
    (h : rule ∈ installedRules orders config ns nsConfig dir) :
    ColonLast rule.id := by
  cases dir with
  | egress => exact (hids.egressGenerated rule h).colonLast
  | ingress =>
      rcases mem_installed_ingress h with h | ⟨rmt, _, h⟩
      · exact (hids.ingressGenerated rule h).colonLast
      · obtain ⟨protocol, action, text, port, rfl, hdash, _⟩ :=
          combined_of_mem_addedFor h
        change ColonLast (combinedRuleID ns rmt.1 text protocol)
        rw [combinedRuleID_eq]
        exact colonLast_append _ (protocolText_cases protocol) hdash

theorem DistinctIDs.installed_inj
    (h : rule ∈ installedRules orders config ns nsConfig dir)
    (h' : rule' ∈ installedRules orders config ns nsConfig dir)
    (hid : rule.id = rule'.id) : rule = rule' := by
  have hne : ∀ {a b : ContivRule} {rmt : UInt32 × NamespaceConfig},
      a ∈ nsConfig.ingress →
      b ∈ addedFor (orders.combine ns) ns nsConfig rmt → a.id ≠ b.id := by
    intro a b rmt ha hb
    obtain ⟨protocol, action, text, port, rfl, _, hslash, _⟩ :=
      combined_of_mem_addedFor hb
    exact (hids.ingressGenerated a ha).ne_combinedRuleID hslash
  cases dir with
  | egress => exact List.inj_on_of_nodup_map hids.egress h h' hid
  | ingress =>
      rcases mem_installed_ingress h with h | ⟨rmt, hrmt, h⟩ <;>
        rcases mem_installed_ingress h' with h' | ⟨rmt', hrmt', h'⟩
      · exact List.inj_on_of_nodup_map hids.ingress h h' hid
      · exact absurd hid (hne h h')
      · exact absurd hid.symm (hne h' h)
      · exact addedFor_inj hrmt hrmt' h h' hid

end Installed

/-! ## The tables -/

/-- The names that are hashed for a configuration. -/
def hashedNames (orders : RefreshOrders) (config : Config) : Set String :=
  {name | ∃ dir ns nsConfig, config.lookup ns = some nsConfig ∧
    ∃ rule ∈ installedRules orders config ns nsConfig dir,
      ∃ part ∈ parts dir ns nsConfig.ipAddr rule,
        name = hashedName ns dir rule.id part.1}

structure TaggedPart (md5Hash : String → String) (orders : RefreshOrders)
    (config : Config) (r : SessionRule) where
  dir : Direction
  ns : UInt32
  nsConfig : NamespaceConfig
  rule : ContivRule
  part : String × SessionRule
  lookup : config.lookup ns = some nsConfig
  installed : rule ∈ installedRules orders config ns nsConfig dir
  mem : part ∈ parts dir ns nsConfig.ipAddr rule
  eq : r = part.2.withTag md5Hash sessionRuleTagPrefix
    (hashedName ns dir rule.id part.1)

section Tables

variable {md5Hash : String → String} {orders : RefreshOrders}
  {config : Config} {table : TableID} {r r' : SessionRule}

theorem taggedPart_of_mem_convertRule {dir : Direction} {ns : UInt32}
    {nsConfig : NamespaceConfig} {rule : ContivRule}
    (hns : config.lookup ns = some nsConfig)
    (hrule : rule ∈ installedRules orders config ns nsConfig dir)
    (hr : r ∈ convertRule md5Hash dir ns nsConfig.ipAddr sessionRuleTagPrefix
      rule) : Nonempty (TaggedPart md5Hash orders config r) := by
  rw [convertRule_eq, List.mem_map] at hr
  obtain ⟨part, hpart, rfl⟩ := hr
  exact ⟨⟨dir, ns, nsConfig, rule, part, hns, hrule, hpart, rfl⟩⟩

theorem taggedPart_of_mem_rulesFor
    (hr : r ∈ rulesFor md5Hash sessionRuleTagPrefix orders config table) :
    Nonempty (TaggedPart md5Hash orders config r) := by
  cases table with
  | global =>
      obtain ⟨⟨ns, nsConfig⟩, hns, hr⟩ := List.mem_flatMap.mp hr
      obtain ⟨rule, hrule, hr⟩ := mem_globalRules.mp hr
      exact @taggedPart_of_mem_convertRule _ orders _ _ .egress _ _ _
        (mem_range.mp hns) hrule hr
  | ofNamespace ns =>
      cases hns : config.lookup ns with
      | none =>
          change r ∈ localRules md5Hash sessionRuleTagPrefix
            (orders.combine ns) config ns at hr
          rw [localRules, getCombinedIngressRules, hns] at hr
          cases hr
      | some nsConfig =>
          obtain ⟨rule, hrule, hr⟩ := (mem_localRules hns).mp hr
          exact @taggedPart_of_mem_convertRule _ orders _ _ .ingress _ _ _ hns
            hrule hr

theorem Txn.Current.taggedPart {txn : Txn}
    (h : txn.Current md5Hash sessionRuleTagPrefix)
    (hr : r ∈ (txn.refreshTables md5Hash sessionRuleTagPrefix
      orders).tables.rules table) :
    Nonempty (TaggedPart md5Hash orders txn.config r) := by
  have htables : Tabulates md5Hash sessionRuleTagPrefix orders ⟨txn.config,
      (txn.refreshTables md5Hash sessionRuleTagPrefix orders).tables⟩ :=
    h.refreshTables_list_eq orders
  exact taggedPart_of_mem_rulesFor (htables.mem_rulesFor hr)

theorem TaggedPart.name_mem (t : TaggedPart md5Hash orders config r) :
    hashedName t.ns t.dir t.rule.id t.part.1 ∈ hashedNames orders config :=
  ⟨t.dir, t.ns, t.nsConfig, t.lookup, t.rule, t.installed, t.part, t.mem, rfl⟩

theorem TaggedPart.eq_of_name
    (hids : ∀ ns nsConfig, config.lookup ns = some nsConfig →
      DistinctIDs nsConfig)
    (t : TaggedPart md5Hash orders config r)
    (t' : TaggedPart md5Hash orders config r')
    (h : hashedName t.ns t.dir t.rule.id t.part.1 =
      hashedName t'.ns t'.dir t'.rule.id t'.part.1) : r = r' := by
  obtain ⟨dir, ns, nsConfig, rule, part, hns, hrule, hpart, rfl⟩ := t
  obtain ⟨dir', ns', nsConfig', rule', part', hns', hrule', hpart', rfl⟩ := t'
  obtain ⟨rfl, rfl, happend⟩ := hashedName_inj h
  obtain rfl : nsConfig = nsConfig' := Option.some.inj (hns.symm.trans hns')
  have hdistinct := hids ns nsConfig hns
  obtain ⟨hid, hsuffix⟩ := append_half_inj (hdistinct.colonLast hrule)
    (hdistinct.colonLast hrule') (suffix_of_mem_parts hpart)
    (suffix_of_mem_parts hpart') happend
  obtain rfl := hdistinct.installed_inj hrule hrule' hid
  obtain rfl := parts_inj hpart hpart' hsuffix
  rfl

end Tables

/-- Rules with one tag are one rule, wherever they are, and a dump takes every
rule for one of the renderer's.  Of the hash it is only asked that the names of
the configuration do not collide. -/
theorem refreshTables_tags {md5Hash : String → String}
    (hmd5 : HexDigest md5Hash) (cache : SessionRuleCache) (resync : Bool)
    (calls : List TxnCall) (orders : RefreshOrders)
    (hids : ∀ ns nsConfig, (cache.txnAfter md5Hash sessionRuleTagPrefix resync
      calls).config.lookup ns = some nsConfig → DistinctIDs nsConfig)
    (hinj : Set.InjOn md5Hash (hashedNames orders
      (cache.txnAfter md5Hash sessionRuleTagPrefix resync calls).config)) :
    let tables := ((cache.txnAfter md5Hash sessionRuleTagPrefix resync
      calls).refreshTables md5Hash sessionRuleTagPrefix orders).tables
    (∀ table table' r r', r ∈ tables.rules table → r' ∈ tables.rules table' →
      r.tag = r'.tag → r = r') ∧
    ∀ table, ∀ r ∈ tables.rules table,
      utf8 sessionRuleTagPrefix <+: r.tag.toList ∧ 0 ∈ r.tag.toList ∧
        ownTag r.tag = some true := by
  intro tables
  have hparts : ∀ table, ∀ r ∈ tables.rules table,
      Nonempty (TaggedPart md5Hash orders (cache.txnAfter md5Hash
        sessionRuleTagPrefix resync calls).config r) :=
    fun table r hr => (cache.txnAfter_current resync calls).taggedPart hr
  constructor
  · intro table table' r r' hr hr' htag
    obtain ⟨t⟩ := hparts table r hr
    obtain ⟨t'⟩ := hparts table' r' hr'
    refine t.eq_of_name hids t' (hinj t.name_mem t'.name_mem ?_)
    rw [t.eq, t'.eq] at htag
    exact md5Hash_eq_of_tag hmd5 (tag_of_mem_parts t.mem)
      (tag_of_mem_parts t'.mem) htag
  · intro table r hr
    obtain ⟨t⟩ := hparts table r hr
    have htag := tag_of_mem_parts t.mem
    rw [t.eq]
    refine ⟨?_, ?_, ownTag_withTag hmd5 htag _⟩
    · rw [withTag_toList hmd5 htag, List.append_assoc]
      exact List.prefix_append _ _
    · rw [withTag_toList hmd5 htag]
      simp

def lastBytes (text : String) : String :=
  hexString (((utf8 text).reverse ++ List.replicate 16 0).take 16)

def deniedPod : NamespaceConfig :=
  ⟨isolatedIP, [], [⟨"TCP:NONE", .deny, .any, .any, .tcp, 0, 0⟩]⟩

/-- A pod that nobody may connect to has two rules in the global table. -/
theorem refreshTables_tags_deniedPod :
    let tables := (((cacheAfter lastBytes sessionRuleTagPrefix []).txnAfter
      lastBytes sessionRuleTagPrefix false
        [.update 1 deniedPod]).refreshTables lastBytes sessionRuleTagPrefix
          insertionOrders).tables
    (tables.rules .global).length = 2 ∧
    (∀ table table' r r', r ∈ tables.rules table → r' ∈ tables.rules table' →
      r.tag = r'.tag → r = r') ∧
    ∀ table, ∀ r ∈ tables.rules table,
      utf8 sessionRuleTagPrefix <+: r.tag.toList ∧ 0 ∈ r.tag.toList ∧
        ownTag r.tag = some true := by
  have hlookup : ∀ ns nsConfig,
      ((∅ : Config).insert 1 deniedPod).lookup ns = some nsConfig →
        ns = 1 ∧ nsConfig = deniedPod := by
    intro ns nsConfig h
    rcases lookup_insert_eq_some h with hnew | ⟨_, hold⟩
    · exact hnew
    · cases hold
  refine ⟨by decide +kernel, refreshTables_tags ?_
    (cacheAfter lastBytes sessionRuleTagPrefix []) false
    [.update 1 deniedPod] insertionOrders ?_ ?_⟩
  · intro text
    exact ⟨_, by simp, rfl⟩
  · intro ns nsConfig h
    rw [(hlookup ns nsConfig h).2]
    refine ⟨by decide, by decide, ?_, by simp [deniedPod]⟩
    intro rule hrule
    rw [List.mem_singleton.mp hrule]
    exact Or.inl rfl
  · have hnames : ∀ name ∈ hashedNames insertionOrders
        ((∅ : Config).insert 1 deniedPod),
        name ∈ ["1-egress-TCP:NONE-1/2", "1-egress-TCP:NONE-2/2"] := by
      rintro name ⟨dir, ns, nsConfig, hns, rule, hrule, part, hpart, rfl⟩
      obtain ⟨rfl, rfl⟩ := hlookup ns nsConfig hns
      cases dir with
      | ingress => cases hrule
      | egress =>
          obtain rfl := List.mem_singleton.mp hrule
          have hall : ∀ part ∈ parts .egress 1 isolatedIP
              ⟨"TCP:NONE", .deny, .any, .any, .tcp, 0, 0⟩,
              hashedName 1 .egress "TCP:NONE" part.1 ∈
                ["1-egress-TCP:NONE-1/2", "1-egress-TCP:NONE-2/2"] := by
            decide +kernel
          exact hall part hpart
    have hinj : ∀ name ∈ ["1-egress-TCP:NONE-1/2", "1-egress-TCP:NONE-2/2"],
        ∀ name' ∈ ["1-egress-TCP:NONE-1/2", "1-egress-TCP:NONE-2/2"],
          lastBytes name = lastBytes name' → name = name' := by
      decide +kernel
    intro name hname name' hname' heq
    exact hinj name (hnames name hname) name' (hnames name' hname') heq

end ContivVPP.SessionCache
