import Mathlib.Data.Vector.Defs
import ContivVPP.CombinedRules
import ContivVPP.SlotArray

/-!
# Session rules

The rules of the VPP session layer, their order, and the conversion of Contiv
rules into them.  Byte arrays have a fixed length.  A tag is a prefix followed
by the MD5 hash of a name that identifies the rule; the hash is a parameter.
-/

namespace ContivVPP.SessionCache

open Net Renderer

abbrev Bytes (n : ℕ) := List.Vector UInt8 n

structure SessionRule where
  transportProto : UInt8
  isIP4 : UInt8
  lclIP : Bytes 16
  lclPlen : UInt8
  rmtIP : Bytes 16
  rmtPlen : UInt8
  lclPort : UInt16
  rmtPort : UInt16
  actionIndex : UInt32
  appnsIndex : UInt32
  scope : UInt8
  tag : Bytes 64
  deriving DecidableEq

def ruleScopeGlobal : UInt8 := 1
def ruleScopeLocal : UInt8 := 2
def ruleActionDeny : UInt32 := 0xfffffffe
def ruleActionAllow : UInt32 := 0xfffffffd
def ruleProtoTCP : UInt8 := 0
def ruleProtoUDP : UInt8 := 1

/-! ## The order of session rules -/

-- `CompareIPNetsBytes` on the prefix and the address selected from a rule.
def compareIPNetsBytes (plen : SessionRule → UInt8)
    (ip : SessionRule → Bytes 16) : SessionRule → SessionRule → Ordering :=
  compareLex (compareOn fun r => (plen r).toNat)
    (compareOn fun r => (ip r).toList)

def SessionRule.compareFields : SessionRule → SessionRule → Ordering :=
  compareLex (compareOn fun r => r.appnsIndex.toNat) <|
  compareLex (compareOn fun r => r.scope.toNat) <|
  compareLex (compareOn fun r => r.actionIndex.toNat) <|
  compareLex (compareOn fun r => r.isIP4.toNat) <|
  compareLex (compareIPNetsBytes lclPlen lclIP) <|
  compareLex (compareIPNetsBytes rmtPlen rmtIP) <|
  compareLex (compareOn fun r => r.transportProto.toNat) <|
  compareLex (compareOn fun r => r.lclPort.toNat)
    (compareOn fun r => r.rmtPort.toNat)

def SessionRule.compare (compareTag : Bool) :
    SessionRule → SessionRule → Ordering :=
  if compareTag then
    compareLex compareFields (compareOn fun r => r.tag.toList)
  else compareFields

instance (plen : SessionRule → UInt8) (ip : SessionRule → Bytes 16) :
    Std.TransCmp (compareIPNetsBytes plen ip) := by
  unfold compareIPNetsBytes
  infer_instance

instance : Std.TransCmp SessionRule.compareFields := by
  unfold SessionRule.compareFields
  infer_instance

instance (compareTag : Bool) : Std.TransCmp (SessionRule.compare compareTag) := by
  cases compareTag
  · exact inferInstanceAs (Std.TransCmp SessionRule.compareFields)
  · exact inferInstanceAs (Std.TransCmp (compareLex _ _))

theorem SessionRule.compareFields_eq_iff {a b : SessionRule} :
    compareFields a b = .eq ↔ { a with tag := b.tag } = b := by
  simp only [compareFields, compareIPNetsBytes, compareLex_eq_eq,
    compareOn_eq_iff, UInt8.toNat_inj, UInt16.toNat_inj, UInt32.toNat_inj,
    List.Vector.toList]
  constructor
  · intro h
    obtain ⟨hns, hscope, haction, hip4, ⟨hlplen, hlip⟩, ⟨hrplen, hrip⟩,
      hproto, hlport, hrport⟩ := h
    have hlip' : a.lclIP = b.lclIP := Subtype.ext hlip
    have hrip' : a.rmtIP = b.rmtIP := Subtype.ext hrip
    cases a
    cases b
    simp_all
  · intro h
    rw [← h]
    simp

theorem SessionRule.compare_true_eq_iff {a b : SessionRule} :
    compare true a b = .eq ↔ a = b := by
  change compareLex compareFields (compareOn fun r => r.tag.toList) a b = .eq ↔ _
  rw [compareLex_eq_eq, compareFields_eq_iff, compareOn_eq_iff]
  constructor
  · intro h
    have htag : a.tag = b.tag := Subtype.ext h.2
    rw [← h.1, ← htag]
  · intro h
    subst h
    exact ⟨rfl, rfl⟩

/-! ## Conversion of Contiv rules -/

def zeroBytes (n : ℕ) : Bytes n :=
  List.Vector.replicate n 0

def copyBytes {n : ℕ} (dst : Bytes n) (src : List UInt8) : Bytes n :=
  ⟨(src ++ dst.toList.drop src.length).take n, by
    simp only [List.length_take, List.length_append, List.length_drop,
      List.Vector.toList_length]
    omega⟩

def utf8 (text : String) : List UInt8 :=
  text.toList.flatMap String.utf8EncodeChar

def transportProto : ProtocolType → UInt8
  | .tcp => ruleProtoTCP
  | .udp => ruleProtoUDP

def actionIndex : ActionType → UInt32
  | .permit => ruleActionAllow
  | .deny => ruleActionDeny

section Conversion

variable (md5Hash : String → String)

def SessionRule.withTag (rule : SessionRule) (tagPrefix name : String) :
    SessionRule :=
  { rule with tag := copyBytes rule.tag (utf8 (tagPrefix ++ md5Hash name)) }

def SessionRule.upperHalf (rule : SessionRule) : SessionRule :=
  { rule with rmtIP := copyBytes rule.rmtIP [0x80] }

def maskOnes (mask : IPMask) : UInt8 :=
  (maskSize mask).1.toUInt8

def networkBytes (network : IPNet) (isIP4 : Bool) : Bytes 16 × UInt8 :=
  if network.ip.length > 0 then
    (copyBytes (zeroBytes 16)
      (((if isIP4 then to4 network.ip else to16 network.ip)).getD []),
      maskOnes network.mask)
  else (zeroBytes 16, 0)

def egressRule (ipAddr : IPNet) (rule : ContivRule) : SessionRule :=
  let isIP4 := (to4 ipAddr.ip).isSome &&
    (rule.srcNetwork.ip.isEmpty || (to4 rule.srcNetwork.ip).isSome)
  let rmt := networkBytes rule.srcNetwork isIP4
  { transportProto := transportProto rule.protocol
    isIP4 := if isIP4 then 1 else 0
    lclIP := copyBytes (zeroBytes 16)
      ((if isIP4 then to4 ipAddr.ip else to16 ipAddr.ip).getD [])
    lclPlen := maskOnes ipAddr.mask
    rmtIP := rmt.1
    rmtPlen := rmt.2
    lclPort := rule.destPort
    rmtPort := rule.srcPort
    actionIndex := actionIndex rule.action
    appnsIndex := 0
    scope := ruleScopeGlobal
    tag := zeroBytes 64 }

-- Permits without a network and a port are not installed, and other rules
-- without a network are split in half.
def convertEgressRule (nsIndex : UInt32) (ipAddr : IPNet)
    (tagPrefix : String) (rule : ContivRule) : List SessionRule :=
  if rule.srcNetwork.ip.length = 0 ∧ rule.destPort = 0 ∧
      rule.action = .permit then []
  else
    let sessionRule := egressRule ipAddr rule
    let name := toString nsIndex.toNat ++ "-egress-" ++ rule.id
    if rule.srcNetwork.ip.length = 0 then
      let half := { sessionRule with rmtPlen := 1 }
      [half.withTag md5Hash tagPrefix (name ++ "-1/2"),
        half.upperHalf.withTag md5Hash tagPrefix (name ++ "-2/2")]
    else [sessionRule.withTag md5Hash tagPrefix name]

def convertEgressRules (nsIndex : UInt32) (ipAddr : IPNet)
    (egress : List ContivRule) (tagPrefix : String) : List SessionRule :=
  egress.flatMap (convertEgressRule md5Hash nsIndex ipAddr tagPrefix)

def ingressRule (nsIndex : UInt32) (rule : ContivRule) : SessionRule :=
  let isIP4 := !rule.destNetwork.ip.isEmpty && (to4 rule.destNetwork.ip).isSome
  let rmt := networkBytes rule.destNetwork isIP4
  { transportProto := transportProto rule.protocol
    isIP4 := if isIP4 then 1 else 0
    lclIP := zeroBytes 16
    lclPlen := 0
    rmtIP := rmt.1
    rmtPlen := rmt.2
    lclPort := rule.srcPort
    rmtPort := rule.destPort
    actionIndex := actionIndex rule.action
    appnsIndex := nsIndex
    scope := ruleScopeLocal
    tag := zeroBytes 64 }

-- The first of the four rules without a network is appended twice.
def convertIngressRule (nsIndex : UInt32) (tagPrefix : String)
    (rule : ContivRule) : List SessionRule :=
  if rule.destNetwork.ip.length = 0 ∧ rule.destPort = 0 ∧
      rule.action = .permit then []
  else
    let sessionRule := ingressRule nsIndex rule
    let name := toString nsIndex.toNat ++ "-ingress-" ++ rule.id
    if rule.destNetwork.ip.length = 0 then
      let half6 := { sessionRule with rmtPlen := 1 }
      let half4 := { half6 with isIP4 := 1 }
      let lower4 := half4.withTag md5Hash tagPrefix (name ++ "-IPv4-1/2")
      [lower4, lower4,
        half4.upperHalf.withTag md5Hash tagPrefix (name ++ "-IPv4-2/2"),
        half6.withTag md5Hash tagPrefix (name ++ "-IPv6-1/2"),
        half6.upperHalf.withTag md5Hash tagPrefix (name ++ "-IPv6-2/2")]
    else [sessionRule.withTag md5Hash tagPrefix name]

def convertIngressRules (nsIndex : UInt32) (ingress : List ContivRule)
    (tagPrefix : String) : List SessionRule :=
  ingress.flatMap (convertIngressRule md5Hash nsIndex tagPrefix)

end Conversion

/-! ## Lists of session rules

Session rules are kept in sorted arrays without two rules that differ in the
tag only. -/

abbrev SessionRuleList := SlotArray SessionRule

namespace SessionRuleList

def insertOne (srl : SessionRuleList) (rule : SessionRule) :
    Bool × SessionRuleList :=
  SlotArray.insert (SessionRule.compare false rule) rule srl

/-- `Insert`, with the information whether all rules were new. -/
def insert (srl : SessionRuleList) (rules : List SessionRule) :
    Bool × SessionRuleList :=
  rules.foldl (fun acc rule =>
    let res := insertOne acc.2 rule
    (acc.1 && res.1, res.2)) (true, srl)

def remove (srl : SessionRuleList) (idx : ℕ) : Bool × SessionRuleList :=
  if idx < srl.numItems then (true, srl.removeAt idx) else (false, srl)

structure Has (srl : SessionRuleList) (rules : List SessionRule) : Prop where
  holds : srl.Holds rules
  sorted : SlotArray.StrictlySorted (SessionRule.compare false) rules

theorem has_empty : Has SlotArray.empty [] :=
  ⟨SlotArray.holds_empty, List.Pairwise.nil⟩

theorem Has.insertOne {srl : SessionRuleList} {rules : List SessionRule}
    (h : srl.Has rules) (rule : SessionRule) :
    ∃ rules', (srl.insertOne rule).2.Has rules' ∧
      (∀ r ∈ rules', r ∈ rules ∨ r = rule) ∧ rules ⊆ rules' ∧
      ∃ r ∈ rules', SessionRule.compare false rule r = .eq := by
  rcases SlotArray.insert_spec h.holds h.sorted rule with
    ⟨⟨r, hr, heq⟩, hinsert⟩ |
      ⟨_, smaller, bigger, hsplit, hinsert, hholds, hsorted⟩
  · refine ⟨rules, ?_, fun r hr => Or.inl hr, fun r hr => hr, r, hr, heq⟩
    rw [SessionRuleList.insertOne, hinsert]
    exact h
  · refine ⟨smaller ++ rule :: bigger, ?_, ?_, ?_, rule, by simp,
      Std.ReflCmp.compare_self⟩
    · rw [SessionRuleList.insertOne, hinsert]
      exact ⟨hholds, hsorted⟩
    · intro r hr
      simp only [hsplit, List.mem_append, List.mem_cons] at hr ⊢
      tauto
    · intro r hr
      simp only [hsplit, List.mem_append, List.mem_cons] at hr ⊢
      tauto

/-- Inserting adds no rules but the given ones, and of those every rule that
does not differ from one that is there in the tag only. -/
theorem Has.insert {srl : SessionRuleList} {rules : List SessionRule}
    (h : srl.Has rules) (new : List SessionRule) :
    ∃ rules', (srl.insert new).2.Has rules' ∧
      (∀ r ∈ rules', r ∈ rules ∨ r ∈ new) ∧ rules ⊆ rules' ∧
      ∀ r ∈ new, ∃ r' ∈ rules', SessionRule.compare false r r' = .eq := by
  induction new using List.reverseRecOn with
  | nil =>
      exact ⟨rules, h, fun r hr => Or.inl hr, fun r hr => hr, by simp⟩
  | append_singleton new rule ih =>
      obtain ⟨mid, hmid, hfrom, hkeep, hnew⟩ := ih
      obtain ⟨rules', hrules', hfrom', hkeep', hnew'⟩ := hmid.insertOne rule
      refine ⟨rules', ?_, ?_, fun r hr => hkeep' (hkeep hr), ?_⟩
      · have hfold : (srl.insert (new ++ [rule])).2 =
            ((srl.insert new).2.insertOne rule).2 := by
          simp [SessionRuleList.insert]
        rw [hfold]
        exact hrules'
      · intro r hr
        rw [List.mem_append, List.mem_singleton]
        rcases hfrom' r hr with hr | hr
        · rcases hfrom r hr with hr | hr
          · exact Or.inl hr
          · exact Or.inr (Or.inl hr)
        · exact Or.inr (Or.inr hr)
      · intro r hr
        rcases List.mem_append.mp hr with hr | hr
        · obtain ⟨r', hr', heq⟩ := hnew r hr
          exact ⟨r', hkeep' hr', heq⟩
        · rw [List.mem_singleton] at hr
          exact hr ▸ hnew'

end SessionRuleList

end ContivVPP.SessionCache
