import ContivVPP.NetText

/-!
# Contiv rules and their evaluation

A Contiv rule is the n-tuple that every renderer has to support.  A list of
rules is evaluated by first match.  The lists that reach the renderers are
default-deny shaped: all rules permit, except for one catch-all deny rule for
each protocol at the very end, if there is any.
-/

namespace ContivVPP.Renderer

open Net

inductive ActionType where
  | deny
  | permit
  deriving DecidableEq, Repr

inductive ProtocolType where
  | tcp
  | udp
  deriving DecidableEq, Repr

structure ContivRule where
  id : String
  action : ActionType
  srcNetwork : IPNet
  destNetwork : IPNet
  protocol : ProtocolType
  srcPort : UInt16
  destPort : UInt16
  deriving DecidableEq, Repr

/-- Traffic as a rule sees it, with real addresses and a real destination
port. -/
structure Traffic where
  srcIP : IP
  destIP : IP
  protocol : ProtocolType
  srcPort : UInt16
  destPort : UInt16
  srcValid : ValidIP srcIP
  destValid : ValidIP destIP
  destPort_ne_zero : destPort ≠ 0

inductive TrafficAction where
  | denied
  | allowed
  | unmatched
  deriving DecidableEq, Repr

def networkMatches (n : IPNet) (ip : IP) : Bool :=
  n.ip.length == 0 || n.contains ip

def portMatches (port trafficPort : UInt16) : Bool :=
  port == 0 || port == trafficPort

def ContivRule.matchesTraffic (rule : ContivRule) (t : Traffic) : Bool :=
  networkMatches rule.srcNetwork t.srcIP &&
    networkMatches rule.destNetwork t.destIP &&
    rule.protocol == t.protocol &&
    portMatches rule.srcPort t.srcPort &&
    portMatches rule.destPort t.destPort

def ActionType.trafficAction : ActionType → TrafficAction
  | .permit => .allowed
  | .deny => .denied

/-- `MockRenderer.TestTraffic` on the list of one direction. -/
def testTraffic (rules : List ContivRule) (t : Traffic) : TrafficAction :=
  match rules.find? (·.matchesTraffic t) with
  | some rule => rule.action.trafficAction
  | none => .unmatched

@[simp] theorem networkMatches_any (ip : IP) :
    networkMatches IPNet.any ip = true := by
  simp [networkMatches, IPNet.any]

@[simp] theorem portMatches_zero (port : UInt16) : portMatches 0 port = true := by
  simp [portMatches]

theorem getOneHostSubnet_matches_iff {text : String} {ip : IP}
    (hip : ValidIP ip) :
    (∃ n, getOneHostSubnet text = some n ∧ networkMatches n ip = true) ↔
      ∃ hostIP, parseIP text = some hostIP ∧ ipEqual hostIP ip = true := by
  constructor
  · rintro ⟨n, hn, hmatch⟩
    have hhost := getOneHostSubnet_oneHost hn
    have hparse := (getOneHostSubnet_eq_some_iff.mp hn).1
    have hcontains : n.contains ip = true := by
      simpa [networkMatches, hhost.length] using hmatch
    refine ⟨n.ip, hparse, ?_⟩
    rw [ipEqual_iff_norm (parseIP_valid hparse) hip]
    exact ((hhost.contains_iff ip).mp hcontains).symm
  · rintro ⟨hostIP, hparse, hequal⟩
    let n : IPNet := ⟨hostIP, if (to4 hostIP).isSome then cidrMask 32 32
      else cidrMask 128 128⟩
    have hn : getOneHostSubnet text = some n :=
      getOneHostSubnet_eq_some_iff.mpr ⟨hparse, rfl⟩
    refine ⟨n, hn, ?_⟩
    rw [ipEqual_iff_norm (parseIP_valid hparse) hip] at hequal
    have hcontains :=
      ((getOneHostSubnet_oneHost hn).contains_iff ip).mpr hequal.symm
    simp [networkMatches, hcontains]

theorem testTraffic_append_of_permit
    {permits rest : List ContivRule} {t : Traffic}
    (hpermit : ∀ rule ∈ permits, rule.action = .permit) :
    testTraffic (permits ++ rest) t =
      if ∃ rule ∈ permits, rule.matchesTraffic t = true then .allowed
      else testTraffic rest t := by
  unfold testTraffic
  rw [List.find?_append]
  cases hfind : permits.find? (·.matchesTraffic t) with
  | none =>
      have hnone : ¬ ∃ rule ∈ permits, rule.matchesTraffic t = true := by
        simpa using hfind
      rw [if_neg hnone]
      rfl
  | some rule =>
      have hmem := List.mem_of_find?_eq_some hfind
      have hmatch := List.find?_some hfind
      rw [if_pos ⟨rule, hmem, hmatch⟩]
      simp [hpermit rule hmem, ActionType.trafficAction]

/-! ## Default-deny lists -/

structure ContivRule.IsCatchAllDeny (protocol : ProtocolType)
    (rule : ContivRule) : Prop where
  action : rule.action = .deny
  src : rule.srcNetwork.ip = []
  dest : rule.destNetwork.ip = []
  protocol_eq : rule.protocol = protocol
  srcPort : rule.srcPort = 0
  destPort : rule.destPort = 0

def DefaultDenyShaped (rules : List ContivRule) : Prop :=
  ∃ permits denies, rules = permits ++ denies ∧
    (∀ rule ∈ permits, rule.action = .permit) ∧
    (denies = [] ∨ ∃ tcp udp : ContivRule, tcp.IsCatchAllDeny .tcp ∧
      udp.IsCatchAllDeny .udp ∧ (denies = [tcp, udp] ∨ denies = [udp, tcp]))

theorem ContivRule.IsCatchAllDeny.matchesTraffic_iff
    {protocol : ProtocolType} {rule : ContivRule}
    (h : rule.IsCatchAllDeny protocol) (t : Traffic) :
    rule.matchesTraffic t = true ↔ protocol = t.protocol := by
  simp [ContivRule.matchesTraffic, networkMatches, h.src, h.dest,
    h.protocol_eq, h.srcPort, h.destPort]

variable {rules : List ContivRule}

theorem DefaultDenyShaped.split (h : DefaultDenyShaped rules) :
    ∃ permits denies, rules = permits ++ denies ∧
      (∀ rule ∈ permits, rule.action = .permit) ∧
      (∀ rule ∈ denies, ∃ protocol, rule.IsCatchAllDeny protocol) ∧
      (denies ≠ [] → ∀ t, ∃ rule ∈ denies, rule.matchesTraffic t = true) := by
  obtain ⟨permits, denies, heq, hpermits, hdenies⟩ := h
  refine ⟨permits, denies, heq, hpermits, ?_⟩
  rcases hdenies with hnil | ⟨tcp, udp, htcp, hudp, hlist⟩
  · simp [hnil]
  · have hmem : ∀ rule, rule ∈ denies ↔ rule = tcp ∨ rule = udp := by
      intro rule
      rcases hlist with hlist | hlist
      · simp [hlist]
      · simp [hlist, or_comm]
    constructor
    · intro rule hrule
      rcases (hmem rule).mp hrule with rfl | rfl
      · exact ⟨.tcp, htcp⟩
      · exact ⟨.udp, hudp⟩
    · intro _ t
      cases hprotocol : t.protocol with
      | tcp =>
          exact ⟨tcp, (hmem tcp).mpr (Or.inl rfl),
            (htcp.matchesTraffic_iff t).mpr hprotocol.symm⟩
      | udp =>
          exact ⟨udp, (hmem udp).mpr (Or.inr rfl),
            (hudp.matchesTraffic_iff t).mpr hprotocol.symm⟩

theorem testTraffic_of_deny {t : Traffic}
    (hdeny : ∀ rule ∈ rules, rule.action = .deny)
    (hmatch : ∃ rule ∈ rules, rule.matchesTraffic t = true) :
    testTraffic rules t = .denied := by
  unfold testTraffic
  cases hfind : rules.find? (·.matchesTraffic t) with
  | none =>
      obtain ⟨rule, hrule, hrt⟩ := hmatch
      exact absurd hrt (List.find?_eq_none.mp hfind rule hrule)
  | some rule =>
      simp [hdeny rule (List.mem_of_find?_eq_some hfind),
        ActionType.trafficAction]

def hasDeny (rules : List ContivRule) : Bool :=
  rules.any fun rule => rule.action == .deny

/-- First match on a default-deny list: traffic is denied if the list has the
denying rules and none of the others matches. -/
theorem DefaultDenyShaped.denied_iff (h : DefaultDenyShaped rules)
    (t : Traffic) :
    testTraffic rules t = .denied ↔ hasDeny rules = true ∧
        ¬ ∃ rule ∈ rules, rule.action = .permit ∧
          rule.matchesTraffic t = true := by
  obtain ⟨permits, denies, rfl, hpermits, hdenies, htotal⟩ := h.split
  have hdeny : ∀ rule ∈ denies, rule.action = .deny := by
    intro rule hrule
    obtain ⟨_, hcatch⟩ := hdenies rule hrule
    exact hcatch.action
  have hhas : hasDeny (permits ++ denies) = true ↔ denies ≠ [] := by
    simp only [hasDeny, List.any_eq_true, beq_iff_eq, List.mem_append]
    constructor
    · rintro ⟨rule, hmem | hmem, haction⟩
      · rw [hpermits rule hmem] at haction
        simp at haction
      · exact List.ne_nil_of_mem hmem
    · intro hne
      obtain ⟨rule, hrule⟩ := List.exists_mem_of_ne_nil _ hne
      exact ⟨rule, Or.inr hrule, hdeny rule hrule⟩
  have hsplit : (∃ rule ∈ permits ++ denies, rule.action = .permit ∧
      rule.matchesTraffic t = true) ↔
      ∃ rule ∈ permits, rule.matchesTraffic t = true := by
    constructor
    · rintro ⟨rule, hmem, hpermit, hmatch⟩
      rcases List.mem_append.mp hmem with hmem | hmem
      · exact ⟨rule, hmem, hmatch⟩
      · rw [hdeny rule hmem] at hpermit
        simp at hpermit
    · rintro ⟨rule, hmem, hmatch⟩
      exact ⟨rule, List.mem_append_left _ hmem, hpermits rule hmem, hmatch⟩
  rw [testTraffic_append_of_permit hpermits, hsplit, hhas]
  by_cases hmatch : ∃ rule ∈ permits, rule.matchesTraffic t = true
  · simp [hmatch]
  · rw [if_neg hmatch]
    by_cases hnil : denies = []
    · simp [hnil, testTraffic]
    · simp [hnil, hmatch, testTraffic_of_deny hdeny (htotal hnil t)]

/-! ## Rules and traffic of the examples -/

def denyRest : List ContivRule := [
  ⟨"TCP:NONE", .deny, .any, .any, .tcp, 0, 0⟩,
  ⟨"UDP:NONE", .deny, .any, .any, .udp, 0, 0⟩]

theorem defaultDenyShaped_cons {rule : ContivRule}
    (h : rule.action = .permit) : DefaultDenyShaped (rule :: denyRest) :=
  ⟨[rule], denyRest, rfl, by simpa using h,
    Or.inr ⟨_, _, ⟨rfl, rfl, rfl, rfl, rfl, rfl⟩,
      ⟨rfl, rfl, rfl, rfl, rfl, rfl⟩, Or.inl rfl⟩⟩

theorem defaultDenyShaped_nil : DefaultDenyShaped [] :=
  ⟨[], [], rfl, by simp, Or.inl rfl⟩

def webRequest : Traffic :=
  ⟨[10, 1, 1, 1], [10, 1, 1, 2], .tcp, 5000, 80, by decide, by decide,
    by decide⟩

/-! ## The order of the rules

Rules are compared field by field.  Lists of rules are compared by length
first, and the nil slice is below every list.  Both orders are total, and
only what is equal compares equal. -/

theorem compareOn_eq_iff {α β : Type*} [Ord β] [Std.LawfulEqOrd β]
    {f : α → β} {a b : α} : compareOn f a b = .eq ↔ f a = f b := by
  rw [compareOn, Std.LawfulEqOrd.compare_eq_iff_eq]

def ActionType.toNat : ActionType → ℕ
  | .deny => 0
  | .permit => 1

def ProtocolType.toNat : ProtocolType → ℕ
  | .tcp => 0
  | .udp => 1

def compareIPNets : IPNet → IPNet → Ordering :=
  compareLex (compareOn IPNet.ip) (compareOn IPNet.mask)

def ContivRule.compare : ContivRule → ContivRule → Ordering :=
  compareLex (compareOn id) <|
  compareLex (compareOn fun r => r.action.toNat) <|
  compareLex (fun a b => compareIPNets a.srcNetwork b.srcNetwork) <|
  compareLex (fun a b => compareIPNets a.destNetwork b.destNetwork) <|
  compareLex (compareOn fun r => r.protocol.toNat) <|
  compareLex (compareOn fun r => r.srcPort.toNat)
    (compareOn fun r => r.destPort.toNat)

abbrev Rules := Option (List ContivRule)

def compareNonNil : List ContivRule → List ContivRule → Ordering :=
  compareLex (compareOn List.length) (List.compareLex ContivRule.compare)

def compareRuleLists : Rules → Rules → Ordering
  | none, none => .eq
  | none, some _ => .lt
  | some _, none => .gt
  | some a, some b => compareNonNil a b

instance : Std.TransCmp compareIPNets := by
  unfold compareIPNets
  infer_instance

instance (network : ContivRule → IPNet) :
    Std.TransCmp fun a b => compareIPNets (network a) (network b) where
  eq_swap := Std.OrientedCmp.eq_swap
  isLE_trans := Std.TransCmp.isLE_trans

instance : Std.TransCmp ContivRule.compare := by
  unfold ContivRule.compare
  infer_instance

instance : Std.TransCmp compareNonNil := by
  unfold compareNonNil
  infer_instance

instance : Std.TransCmp compareRuleLists where
  eq_swap := by
    intro a b
    cases a with
    | none => cases b <;> rfl
    | some a =>
        cases b with
        | none => rfl
        | some b => exact @Std.OrientedCmp.eq_swap _ compareNonNil _ a b
  isLE_trans := by
    intro a b c hab hbc
    cases a with
    | none => cases c <;> rfl
    | some a =>
        cases b with
        | none => exact absurd hab (by simp [compareRuleLists])
        | some b =>
            cases c with
            | none => exact absurd hbc (by simp [compareRuleLists])
            | some c =>
                exact @Std.TransCmp.isLE_trans _ compareNonNil _ a b c hab hbc

theorem ActionType.toNat_inj {a b : ActionType} : a.toNat = b.toNat ↔ a = b := by
  cases a <;> cases b <;> decide

theorem ProtocolType.toNat_inj {a b : ProtocolType} :
    a.toNat = b.toNat ↔ a = b := by
  cases a <;> cases b <;> decide

theorem compareIPNets_eq_iff {a b : IPNet} : compareIPNets a b = .eq ↔ a = b := by
  simp only [compareIPNets, compareLex_eq_eq, compareOn_eq_iff]
  cases a
  cases b
  simp

theorem ContivRule.compare_eq_iff {a b : ContivRule} :
    a.compare b = .eq ↔ a = b := by
  simp only [ContivRule.compare, compareLex_eq_eq, compareOn_eq_iff,
    ActionType.toNat_inj, ProtocolType.toNat_inj, compareIPNets_eq_iff,
    UInt16.toNat_inj]
  cases a
  cases b
  simp

instance : Std.LawfulEqCmp ContivRule.compare where
  compare_self := ContivRule.compare_eq_iff.mpr rfl
  eq_of_compare := ContivRule.compare_eq_iff.mp

theorem compareRuleLists_eq_iff {a b : Rules} :
    compareRuleLists a b = .eq ↔ a = b := by
  cases a with
  | none => cases b <;> simp [compareRuleLists]
  | some a =>
      cases b with
      | none => simp [compareRuleLists]
      | some b =>
          simp only [compareRuleLists, compareNonNil, compareLex_eq_eq,
            compareOn_eq_iff, Option.some.injEq]
          constructor
          · intro h
            exact Std.LawfulEqCmp.eq_of_compare h.2
          · intro h
            subst h
            exact ⟨rfl, Std.ReflCmp.compare_self⟩

end ContivVPP.Renderer
