import Mathlib.Data.String.Basic
import ContivVPP.SessionRule
import ContivVPP.ThreeWay

/-!
# The results of the comparison functions

The source compares rules by functions that return -1, 0 or 1 and leave at the
first field that differs.  Here they are with these results.  They agree with
the orderings that the rest of the development uses, and obey the laws of
total orders for all values.

Texts are compared by their bytes, which for valid UTF-8 is the order of the
characters.
-/

namespace ContivVPP.Renderer

open Net ThreeWay

def compareInts (a b : ℤ) : ℤ :=
  ofLt a b

def bytesCompare : List UInt8 → List UInt8 → ℤ :=
  lexicographic ofLt

def compareIPNetsCode (a b : IPNet) : ℤ :=
  orElse (bytesCompare a.ip b.ip) (bytesCompare a.mask b.mask)

def ContivRule.compareCode (cr cr2 : ContivRule) : ℤ :=
  orElse (ofLt cr.id cr2.id) <|
  orElse (compareInts cr.action.toNat cr2.action.toNat) <|
  orElse (compareIPNetsCode cr.srcNetwork cr2.srcNetwork) <|
  orElse (compareIPNetsCode cr.destNetwork cr2.destNetwork) <|
  orElse (compareInts cr.protocol.toNat cr2.protocol.toNat) <|
  orElse (compareInts cr.srcPort.toNat cr2.srcPort.toNat)
    (compareInts cr.destPort.toNat cr2.destPort.toNat)

-- The loop over lists of the same length.
def compareEach : List ContivRule → List ContivRule → ℤ
  | a :: as, b :: bs => orElse (a.compareCode b) (compareEach as bs)
  | _, _ => 0

def compareRuleListsCode : Rules → Rules → ℤ
  | none, none => 0
  | none, some _ => -1
  | some _, none => 1
  | some a, some b =>
      orElse (compareInts a.length b.length) (compareEach a b)

theorem compareInts_eq_code (a b : ℕ) : compareInts a b = code (compare a b) := by
  rw [← ofLt_eq_code fun _ _ => Nat.compare_eq_lt]
  simp only [compareInts, ofLt, Nat.cast_lt]

theorem bytesCompare_eq_code (a b : List UInt8) :
    bytesCompare a b = code (compare a b) := by
  have hbyte : (ofLt : UInt8 → UInt8 → ℤ) = fun a b => code (compare a b) := by
    funext a b
    exact ofLt_eq_code (fun _ _ => Std.compare_eq_lt) a b
  rw [bytesCompare, hbyte, lexicographic_eq_code]
  rfl

theorem ofLt_string_eq_code (a b : String) : ofLt a b = code (compare a b) :=
  ofLt_eq_code (fun _ _ => compareOfLessAndEq_eq_lt) a b

theorem compareIPNetsCode_eq_code (a b : IPNet) :
    compareIPNetsCode a b = code (compareIPNets a b) := by
  rw [compareIPNetsCode, bytesCompare_eq_code, bytesCompare_eq_code,
    compareIPNets, code_compareLex]
  rfl

theorem ContivRule.compareCode_eq_code (a b : ContivRule) :
    a.compareCode b = code (a.compare b) := by
  simp only [ContivRule.compareCode, ContivRule.compare, code_compareLex,
    compareInts_eq_code, compareIPNetsCode_eq_code, ofLt_string_eq_code]
  rfl

theorem compareEach_eq_code {a b : List ContivRule}
    (hlength : a.length = b.length) :
    compareEach a b = code (List.compareLex ContivRule.compare a b) := by
  induction a generalizing b with
  | nil =>
      obtain rfl := List.eq_nil_of_length_eq_zero hlength.symm
      rfl
  | cons r a ih =>
      cases b with
      | nil => simp at hlength
      | cons r' b =>
          rw [compareEach, List.compareLex_cons_cons, code_then,
            ContivRule.compareCode_eq_code, ih (by simpa using hlength)]

theorem compareRuleListsCode_eq_code (a b : Rules) :
    compareRuleListsCode a b = code (compareRuleLists a b) := by
  cases a with
  | none => cases b <;> rfl
  | some a =>
      cases b with
      | none => rfl
      | some b =>
          simp only [compareRuleListsCode, compareRuleLists, compareNonNil,
            code_compareLex, compareInts_eq_code]
          by_cases hlength : a.length = b.length
          · rw [compareEach_eq_code hlength]
            rfl
          · have hne : code (compare a.length b.length) ≠ 0 := by
              rw [ne_eq, code_eq_zero_iff, Nat.compare_eq_eq]
              exact hlength
            change orElse (code (compare a.length b.length)) _ =
              orElse (code (compare a.length b.length)) _
            rw [orElse_of_ne hne, orElse_of_ne hne]

/-- Both slices are nil, or they have the same rules at the same places. -/
def SameRules (a b : Rules) : Prop :=
  (a = none ∧ b = none) ∨ ∃ rules rules', a = some rules ∧
    b = some rules' ∧ rules.length = rules'.length ∧
    ∀ (i : ℕ) (h : i < rules.length) (h' : i < rules'.length),
      rules[i] = rules'[i]

theorem sameRules_iff {a b : Rules} : SameRules a b ↔ a = b := by
  constructor
  · rintro (⟨rfl, rfl⟩ | ⟨rules, rules', rfl, rfl, hlength, hrules⟩)
    · rfl
    · rw [List.ext_getElem hlength hrules]
  · rintro rfl
    cases a with
    | none => exact Or.inl ⟨rfl, rfl⟩
    | some rules => exact Or.inr ⟨rules, rules, rfl, rfl, rfl, by simp⟩

end ContivVPP.Renderer

namespace ContivVPP.SessionCache

open Renderer ThreeWay

def compareIPNetsBytesCode (aPrefixLen : UInt8) (aIP : Bytes 16)
    (bPrefixLen : UInt8) (bIP : Bytes 16) : ℤ :=
  orElse (compareInts aPrefixLen.toNat bPrefixLen.toNat)
    (bytesCompare aIP.toList bIP.toList)

namespace SessionRule

def compareCode (compareTag : Bool) (sr sr2 : SessionRule) : ℤ :=
  orElse (compareInts sr.appnsIndex.toNat sr2.appnsIndex.toNat) <|
  orElse (compareInts sr.scope.toNat sr2.scope.toNat) <|
  orElse (compareInts sr.actionIndex.toNat sr2.actionIndex.toNat) <|
  orElse (compareInts sr.isIP4.toNat sr2.isIP4.toNat) <|
  orElse (compareIPNetsBytesCode sr.lclPlen sr.lclIP sr2.lclPlen sr2.lclIP) <|
  orElse (compareIPNetsBytesCode sr.rmtPlen sr.rmtIP sr2.rmtPlen sr2.rmtIP) <|
  orElse (compareInts sr.transportProto.toNat sr2.transportProto.toNat) <|
  orElse (compareInts sr.lclPort.toNat sr2.lclPort.toNat) <|
  orElse (compareInts sr.rmtPort.toNat sr2.rmtPort.toNat) <|
  if compareTag then bytesCompare sr.tag.toList sr2.tag.toList else 0

structure SameFields (compareTag : Bool) (a b : SessionRule) : Prop where
  appnsIndex : a.appnsIndex = b.appnsIndex
  scope : a.scope = b.scope
  actionIndex : a.actionIndex = b.actionIndex
  isIP4 : a.isIP4 = b.isIP4
  lclPlen : a.lclPlen = b.lclPlen
  lclIP : a.lclIP = b.lclIP
  rmtPlen : a.rmtPlen = b.rmtPlen
  rmtIP : a.rmtIP = b.rmtIP
  transportProto : a.transportProto = b.transportProto
  lclPort : a.lclPort = b.lclPort
  rmtPort : a.rmtPort = b.rmtPort
  tag : compareTag = true → a.tag = b.tag

theorem code_compareIPNetsBytes (plen : SessionRule → UInt8)
    (ip : SessionRule → Bytes 16) (a b : SessionRule) :
    code (compareIPNetsBytes plen ip a b) =
      compareIPNetsBytesCode (plen a) (ip a) (plen b) (ip b) := by
  rw [compareIPNetsBytesCode, compareInts_eq_code, bytesCompare_eq_code,
    compareIPNetsBytes, code_compareLex]
  rfl

theorem compareCode_eq_orElse (compareTag : Bool) (a b : SessionRule) :
    compareCode compareTag a b = orElse (compareCode false a b)
        (if compareTag then bytesCompare a.tag.toList b.tag.toList
        else 0) := by
  simp only [compareCode, orElse_assoc, Bool.false_eq_true, if_false, zero_orElse]

theorem compareCode_false_eq_code (a b : SessionRule) :
    compareCode false a b = code (compareFields a b) := by
  simp only [compareCode, compareFields, code_compareLex,
    code_compareIPNetsBytes, compareInts_eq_code, Bool.false_eq_true,
    if_false, orElse_zero]
  rfl

theorem compareCode_eq_code (compareTag : Bool) (a b : SessionRule) :
    compareCode compareTag a b = code (compare compareTag a b) := by
  rw [compareCode_eq_orElse, compareCode_false_eq_code]
  cases compareTag with
  | false => exact orElse_zero _
  | true =>
      rw [if_pos rfl, bytesCompare_eq_code]
      exact (code_compareLex compareFields
        (compareOn fun r => r.tag.toList) a b).symm

theorem compare_eq_iff_sameFields (compareTag : Bool) (a b : SessionRule) :
    compare compareTag a b = .eq ↔ SameFields compareTag a b := by
  cases compareTag with
  | false =>
      change compareFields a b = .eq ↔ _
      rw [compareFields_eq_iff]
      constructor
      · intro h
        rw [← h]
        constructor <;> simp
      · intro h
        obtain ⟨hns, hscope, haction, hip4, hlplen, hlip, hrplen, hrip,
          hproto, hlport, hrport, _⟩ := h
        cases a
        cases b
        simp_all
  | true =>
      rw [compare_true_eq_iff]
      constructor
      · rintro rfl
        constructor <;> simp
      · intro h
        obtain ⟨hns, hscope, haction, hip4, hlplen, hlip, hrplen, hrip,
          hproto, hlport, hrport, htag⟩ := h
        cases a
        cases b
        simp_all

end SessionRule

/-- The comparison functions are total orders on all values, and the order of
session rules with the tag refines the one without it. -/
theorem comparisons_total :
    (∀ compareTag, Laws (SessionRule.compareCode compareTag)
      (SessionRule.SameFields compareTag)) ∧
    Laws ContivRule.compareCode (· = ·) ∧
    Laws compareRuleListsCode SameRules ∧
    ∀ a b, SessionRule.compareCode false a b ≠ 0 →
      SessionRule.compareCode true a b = SessionRule.compareCode false a b := by
  refine ⟨?_, ?_, ?_, ?_⟩
  · intro compareTag
    exact laws_of_transCmp (SessionRule.compare compareTag)
      (SessionRule.compareCode_eq_code compareTag)
      (SessionRule.compare_eq_iff_sameFields compareTag)
  · exact laws_of_transCmp ContivRule.compare
      ContivRule.compareCode_eq_code fun _ _ => ContivRule.compare_eq_iff
  · refine laws_of_transCmp compareRuleLists compareRuleListsCode_eq_code ?_
    intro a b
    rw [compareRuleLists_eq_iff, sameRules_iff]
  · intro a b hne
    rw [SessionRule.compareCode_eq_orElse true, orElse_of_ne hne]

end ContivVPP.SessionCache
