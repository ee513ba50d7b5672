import ContivVPP.SessionTable

/-!
# When a session table preserves a rule list

A default-deny list that denies nothing allows every session, and so does its
table.  Otherwise the rules that deny the rest become prefixes of length one.
A permit loses against them, or ties with them, if it is not installed or has
a prefix of length zero, or of length one without a port.  The table preserves
the list exactly if the sessions of such permits are permitted by others as
well, and if the same holds for the sessions that IPv4 sources of an IPv6 pod
let in.
-/

namespace ContivVPP.SessionCache

open Net Renderer BestMatch

section Table

variable (md5Hash : String → String) (dir : Direction) (nsIndex : UInt32)
  (podIP : IPNet) (tagPrefix : String) (rules : List ContivRule)

def convertRules : List SessionRule :=
  match dir with
  | .ingress => convertIngressRules md5Hash nsIndex rules tagPrefix
  | .egress => convertEgressRules md5Hash nsIndex podIP rules tagPrefix

/-- The rules of the list that `Insert` makes of the converted rules. -/
def convertedTable : List SessionRule :=
  (SessionRuleList.insert SlotArray.empty
    (convertRules md5Hash dir nsIndex podIP tagPrefix rules)).2.items

/-- A default-deny list of rules of the direction. -/
structure ShapedFor : Prop where
  shape : DefaultDenyShaped rules
  ruleOf : ∀ rule ∈ rules, RuleOf dir rule

/-- The table says of the traffic what the list says, whatever rule decides
between equals. -/
def PreservedFor (t : Traffic) : Prop :=
  ∀ allow, TableDecides (convertedTable md5Hash dir nsIndex podIP tagPrefix rules)
      (dir.session t) allow ↔
    allow = decide (testTraffic rules t ≠ .denied)

/-- Permits that rank no higher than the rules that deny the rest are backed
by others, and so is what networks of the other version let in. -/
structure PermitsBacked : Prop where
  weak : ∀ t, OfPod dir podIP t → ∀ rule ∈ rules, rule.action = .permit →
    rule.matchesTraffic t = true → ruleRank dir rule ≤ 2 →
    ∃ other ∈ rules, other.action = .permit ∧
      covers dir podIP other t = true ∧ 2 < ruleRank dir other
  foreign : ∀ t, OfPod dir podIP t → ∀ rule ∈ rules, rule.action = .permit →
    covers dir podIP rule t = true → 2 ≤ ruleRank dir rule →
    ∃ other ∈ rules, other.action = .permit ∧ other.matchesTraffic t = true

variable {md5Hash dir nsIndex podIP tagPrefix rules}

theorem convertRules_eq_flatMap :
    convertRules md5Hash dir nsIndex podIP tagPrefix rules =
      rules.flatMap (convertRule md5Hash dir nsIndex podIP tagPrefix) := by
  cases dir <;> rfl

theorem convertedTable_spec :
    (∀ r ∈ convertedTable md5Hash dir nsIndex podIP tagPrefix rules,
      ∃ rule ∈ rules, r ∈ convertRule md5Hash dir nsIndex podIP tagPrefix rule) ∧
      ∀ rule ∈ rules, ∀ r ∈ convertRule md5Hash dir nsIndex podIP tagPrefix
        rule, ∃ r' ∈ convertedTable md5Hash dir nsIndex podIP tagPrefix rules,
          { r with tag := r'.tag } = r' := by
  obtain ⟨table, hhas, hfrom, _, hto⟩ := SessionRuleList.has_empty.insert
    (convertRules md5Hash dir nsIndex podIP tagPrefix rules)
  have htable : convertedTable md5Hash dir nsIndex podIP tagPrefix rules =
      table := hhas.holds.items_eq
  rw [htable]
  rw [convertRules_eq_flatMap] at hfrom hto
  constructor
  · intro r hr
    have hmem := (hfrom r hr).resolve_left (by simp)
    rwa [List.mem_flatMap] at hmem
  · intro rule hrule r hr
    obtain ⟨r', hr', heq⟩ :=
      hto r (List.mem_flatMap.mpr ⟨rule, hrule, hr⟩)
    exact ⟨r', hr', SessionRule.compareFields_eq_iff.mp heq⟩

def Hit (dir : Direction) (podIP : IPNet) (t : Traffic)
    (rule : ContivRule) : Prop :=
  isSkipped dir rule = false ∧ covers dir podIP rule t = true

variable {t : Traffic}

theorem tableDecides_iff (h : ShapedFor dir rules) (hpod : podIP.OneHost)
    (ht : OfPod dir podIP t) {allow : Bool} :
    TableDecides (convertedTable md5Hash dir nsIndex podIP tagPrefix rules)
        (dir.session t) allow ↔
      Decides (Hit dir podIP t) (ruleRank dir)
        (fun rule => rule.action == .permit) rules allow := by
  obtain ⟨hfrom, hto⟩ := @convertedTable_spec md5Hash dir nsIndex podIP
    tagPrefix rules
  have hallows : ∀ action : ActionType,
      (action == .permit) = (actionIndex action == ruleActionAllow) := by
    intro action
    cases action <;> decide
  apply decides_congr
  · intro r hr hmatch
    obtain ⟨rule, hrule, hmem⟩ := hfrom r hr
    have hstands : StandsFor dir podIP rule t
        (convertRule md5Hash dir nsIndex podIP tagPrefix rule) :=
      convertRule_standsFor (h.ruleOf rule hrule) hpod ht
    obtain ⟨hcovers, hrank, haction⟩ := hstands.sound r hmem hmatch
    refine ⟨rule, hrule, ⟨hstands.installed (List.ne_nil_of_mem hmem),
      hcovers⟩, hrank.symm, ?_⟩
    rw [hallows, haction]
  · intro rule hrule hhit
    have hstands : StandsFor dir podIP rule t
        (convertRule md5Hash dir nsIndex podIP tagPrefix rule) :=
      convertRule_standsFor (h.ruleOf rule hrule) hpod ht
    obtain ⟨r, hmem, hmatch⟩ := hstands.complete hhit.1 hhit.2
    obtain ⟨_, hrank, haction⟩ := hstands.sound r hmem hmatch
    obtain ⟨r', hr', heq⟩ := hto rule hrule r hmem
    rw [← heq] at hr'
    refine ⟨_, hr', hmatch, hrank.symm, ?_⟩
    rw [hallows, ← haction]

/-! ## What decides -/

theorem covers_of_matchesTraffic {rule : ContivRule}
    (h : rule.matchesTraffic t = true) : covers dir podIP rule t = true := by
  simp [covers, h]

theorem hit_of_rank {rule : ContivRule} (hcovers : covers dir podIP rule t = true)
    (hrank : 2 < ruleRank dir rule) : Hit dir podIP t rule := by
  refine ⟨?_, hcovers⟩
  rw [← Bool.not_eq_true]
  intro hskip
  simp only [isSkipped, Bool.and_eq_true, List.isEmpty_iff, beq_iff_eq] at hskip
  simp [ruleRank, hskip.1.1, hskip.1.2] at hrank

theorem hit_or_matchesTraffic {rule : ContivRule}
    (hcovers : covers dir podIP rule t = true) :
    Hit dir podIP t rule ∨ rule.matchesTraffic t = true := by
  cases hskip : isSkipped dir rule with
  | false => exact Or.inl ⟨hskip, hcovers⟩
  | true =>
      right
      simp only [isSkipped, Bool.and_eq_true, List.isEmpty_iff] at hskip
      have hforeign : (dir == .egress && coversForeign podIP rule t) = false := by
        cases dir with
        | ingress => rfl
        | egress =>
            have hnil : rule.srcNetwork.ip = [] := hskip.1.1
            have hnone : to4 ([] : IP) = none := rfl
            simp [coversForeign, hnil, hnone]
      simpa [covers, hforeign] using hcovers

section Denies

variable {rule : ContivRule} {protocol : ProtocolType}

theorem ruleRank_of_isCatchAllDeny (h : rule.IsCatchAllDeny protocol) :
    ruleRank dir rule = 2 := by
  have hnil : (dir.remoteNetwork rule).ip = [] := by
    cases dir
    · exact h.dest
    · exact h.src
  simp [ruleRank, hnil, h.destPort]

theorem hit_of_isCatchAllDeny (h : rule.IsCatchAllDeny protocol)
    (hmatch : rule.matchesTraffic t = true) :
    Hit dir podIP t rule := by
  refine ⟨?_, covers_of_matchesTraffic hmatch⟩
  simp [isSkipped, h.action]

end Denies

/-- With the denying rules, the rules of a list split into permits and denies
of rank two, and a deny is always hit. -/
theorem ShapedFor.denies (podIP : IPNet) (h : ShapedFor dir rules)
    (hdeny : hasDeny rules = true) :
    (∀ rule ∈ rules, rule.action = .permit ∨
      rule.action = .deny ∧ ruleRank dir rule = 2) ∧
      ∀ t, ∃ rule ∈ rules, rule.action = .deny ∧ ruleRank dir rule = 2 ∧
        Hit dir podIP t rule := by
  obtain ⟨permits, denies, rfl, hpermits, hdenies, htotal⟩ := h.shape.split
  have hne : denies ≠ [] := by
    intro hnil
    subst hnil
    simp only [hasDeny, List.append_nil, List.any_eq_true, beq_iff_eq] at hdeny
    obtain ⟨rule, hrule, haction⟩ := hdeny
    rw [hpermits rule hrule] at haction
    simp at haction
  constructor
  · intro rule hrule
    rcases List.mem_append.mp hrule with hmem | hmem
    · exact Or.inl (hpermits rule hmem)
    · obtain ⟨_, hcatch⟩ := hdenies rule hmem
      exact Or.inr ⟨hcatch.action, ruleRank_of_isCatchAllDeny hcatch⟩
  · intro t
    obtain ⟨rule, hmem, hmatch⟩ := htotal hne t
    obtain ⟨_, hcatch⟩ := hdenies rule hmem
    exact ⟨rule, List.mem_append_right _ hmem, hcatch.action,
      ruleRank_of_isCatchAllDeny hcatch, hit_of_isCatchAllDeny hcatch hmatch⟩

def PermitsDecide (dir : Direction) (podIP : IPNet)
    (rules : List ContivRule) (t : Traffic) : Prop :=
  ∀ rule ∈ rules, Hit dir podIP t rule → (∀ other ∈ rules, Hit dir podIP t other →
      ruleRank dir other ≤ ruleRank dir rule) →
    (rule.action = .permit ↔ ∃ other ∈ rules, other.action = .permit ∧
      other.matchesTraffic t = true)

theorem preservedFor_iff_permitsDecide (h : ShapedFor dir rules)
    (hpod : podIP.OneHost) (ht : OfPod dir podIP t)
    (hdeny : hasDeny rules = true) :
    PreservedFor md5Hash dir nsIndex podIP tagPrefix rules t ↔
      PermitsDecide dir podIP rules t := by
  obtain ⟨_, hhit⟩ := h.denies podIP hdeny
  obtain ⟨deny, hmem, _, _, hdenyhit⟩ := hhit t
  have hdenied := h.shape.denied_iff t
  unfold PreservedFor PermitsDecide
  simp only [tableDecides_iff h hpod ht]
  rw [decides_iff_eq_of_hit ⟨deny, hmem, hdenyhit⟩]
  refine forall₄_congr fun rule _ _ _ => ?_
  rw [Bool.eq_iff_iff, beq_iff_eq, decide_eq_true_iff, Ne, hdenied]
  simp [hdeny]

theorem preservedFor_of_no_deny (h : ShapedFor dir rules)
    (hpod : podIP.OneHost) (ht : OfPod dir podIP t)
    (hdeny : hasDeny rules = false) :
    PreservedFor md5Hash dir nsIndex podIP tagPrefix rules t := by
  have hpermit : ∀ rule ∈ rules, (rule.action == .permit) = true := by
    intro rule hrule
    have haction : rule.action ≠ .deny := by
      simpa [hasDeny] using List.any_eq_false.mp hdeny rule hrule
    cases hrule' : rule.action with
    | permit => rfl
    | deny => exact absurd hrule' haction
  have hallowed : testTraffic rules t ≠ .denied := by
    rw [Ne, h.shape.denied_iff t, hdeny]
    simp
  intro allow
  rw [tableDecides_iff h hpod ht]
  simp only [hallowed, ne_eq, not_false_eq_true, decide_true]
  constructor
  · intro hdecides
    rcases hdecides with ⟨_, hallow⟩ | ⟨rule, hrule, _, _, hallow⟩
    · exact hallow
    · exact hallow.trans (hpermit rule hrule)
  · intro hallow
    subst hallow
    by_cases hhit : ∃ rule ∈ rules, Hit dir podIP t rule
    · obtain ⟨rule, hrule, hhitr, hmax⟩ :=
        exists_max_hit (ruleRank dir) hhit
      exact Or.inr ⟨rule, hrule, hhitr, hmax, (hpermit rule hrule).symm⟩
    · push Not at hhit
      exact Or.inl ⟨hhit, rfl⟩

/-- The rules that deny the rest are the best ones unless a permit of higher
rank covers the traffic, and a permit of their rank can always decide. -/
theorem forall_permitsDecide_iff (h : ShapedFor dir rules)
    (hdeny : hasDeny rules = true) :
    (∀ t, OfPod dir podIP t → PermitsDecide dir podIP rules t) ↔
      PermitsBacked dir podIP rules := by
  obtain ⟨hsplit, hdenies⟩ := h.denies podIP hdeny
  constructor
  · intro hdecide
    constructor
    · intro t ht rule hrule hpermit hmatch hrank
      by_contra hnone
      push Not at hnone
      obtain ⟨deny, hmem, haction, hdenyrank, hhit⟩ := hdenies t
      have hmax : ∀ other ∈ rules, Hit dir podIP t other →
          ruleRank dir other ≤ ruleRank dir deny := by
        intro other hother hhito
        rcases hsplit other hother with hper | hden
        · rw [hdenyrank]
          exact hnone other hother hper hhito.2
        · rw [hden.2, hdenyrank]
      have hdenypermit := (hdecide t ht deny hmem hhit hmax).mpr
        ⟨rule, hrule, hpermit, hmatch⟩
      simp [haction] at hdenypermit
    · intro t ht rule hrule hpermit hcovers hrank
      by_contra hnone
      rcases @hit_or_matchesTraffic dir podIP t rule hcovers with
        hhit | hmatch
      · obtain ⟨best, hbest, hhitb, hmax⟩ :=
          exists_max_hit (ruleRank dir) ⟨rule, hrule, hhit⟩
        have hbestdeny := mt (hdecide t ht best hbest hhitb hmax).mp hnone
        have hbestrank := ((hsplit best hbest).resolve_left hbestdeny).2
        have hrulemax : ∀ other ∈ rules, Hit dir podIP t other →
            ruleRank dir other ≤ ruleRank dir rule := by
          intro other hother hhito
          have hle := hmax other hother hhito
          omega
        exact hnone ((hdecide t ht rule hrule hhit hrulemax).mp hpermit)
      · exact hnone ⟨rule, hrule, hpermit, hmatch⟩
  · intro hbacked t ht rule hrule hhit hmax
    obtain ⟨deny, hmem, haction, hdenyrank, hdenyhit⟩ := hdenies t
    constructor
    · intro hpermit
      have hle := hmax deny hmem hdenyhit
      rw [hdenyrank] at hle
      exact hbacked.foreign t ht rule hrule hpermit hhit.2 hle
    · intro hmatches
      obtain ⟨permit, hpmem, hpermit, hmatch⟩ := hmatches
      by_contra hnot
      have hrank := ((hsplit rule hrule).resolve_left hnot).2
      have hbetter : ∃ other ∈ rules, Hit dir podIP t other ∧
          2 < ruleRank dir other := by
        by_cases hweak : ruleRank dir permit ≤ 2
        · obtain ⟨other, homem, _, hcovers, horank⟩ :=
            hbacked.weak t ht permit hpmem hpermit hmatch hweak
          exact ⟨other, homem, hit_of_rank hcovers horank, horank⟩
        · have hstrong : 2 < ruleRank dir permit := not_le.mp hweak
          exact ⟨permit, hpmem,
            hit_of_rank (covers_of_matchesTraffic hmatch) hstrong, hstrong⟩
      obtain ⟨other, homem, hohit, horank⟩ := hbetter
      have hle := hmax other homem hohit
      omega

/-- The converted table preserves a default-deny list for all traffic of the
pod if and only if the list denies nothing or its permits are backed. -/
theorem convertedTable_preserves_iff (h : ShapedFor dir rules)
    (hpod : podIP.OneHost) :
    (∀ t, OfPod dir podIP t →
      PreservedFor md5Hash dir nsIndex podIP tagPrefix rules t) ↔
      (hasDeny rules = true → PermitsBacked dir podIP rules) := by
  cases hdeny : hasDeny rules with
  | false =>
      simp only [Bool.false_eq_true, false_imp_iff, iff_true]
      exact fun t ht => preservedFor_of_no_deny h hpod ht hdeny
  | true =>
      rw [← forall_permitsDecide_iff h hdeny]
      simp only [forall_const]
      exact forall₂_congr fun t ht =>
        preservedFor_iff_permitsDecide h hpod ht hdeny

end Table

/-! ## A permit that is not installed -/

def clientIP : IPNet := ⟨v4InV6Prefix ++ [10, 1, 1, 1], cidrMask 32 32⟩

def permitTCP : List ContivRule :=
  ⟨"tcp", .permit, .any, .any, .tcp, 0, 0⟩ :: denyRest

theorem clientIP_oneHost : clientIP.OneHost := ⟨by decide, by decide⟩

theorem shapedFor_ingress_cons {rule : ContivRule}
    (haction : rule.action = .permit) (h : RuleOf .ingress rule) :
    ShapedFor .ingress (rule :: denyRest) := by
  refine ⟨defaultDenyShaped_cons haction, ?_⟩
  intro other hother
  simp only [denyRest, List.mem_cons, List.not_mem_nil, or_false] at hother
  rcases hother with rfl | rfl | rfl
  · exact h
  · exact ⟨rfl, rfl, Or.inl rfl⟩
  · exact ⟨rfl, rfl, Or.inl rfl⟩

/-- All TCP traffic is permitted by the first rule, which is not installed,
so that the rules for the rest deny it. -/
theorem convertedTable_denies_permitted :
    ShapedFor .ingress permitTCP ∧ clientIP.OneHost ∧
      OfPod .ingress clientIP webRequest ∧
      testTraffic permitTCP webRequest = .allowed ∧
      TableDecides (convertedTable id .ingress 10 clientIP
        "contiv/vpp-policy-" permitTCP)
        (Direction.ingress.session webRequest) false := by
  have hshape : ShapedFor .ingress permitTCP :=
    shapedFor_ingress_cons rfl ⟨rfl, rfl, Or.inl rfl⟩
  have hof : OfPod .ingress clientIP webRequest := ⟨by decide, by decide⟩
  refine ⟨hshape, clientIP_oneHost, hof, by decide, ?_⟩
  rw [tableDecides_iff hshape clientIP_oneHost hof]
  unfold Decides Hit
  decide

def permitTen : List ContivRule :=
  ⟨"ten", .permit, .any, ⟨[10, 0, 0, 0], [255, 0, 0, 0]⟩, .tcp, 0, 0⟩ ::
    denyRest

theorem permitTen_shaped : ShapedFor .ingress permitTen :=
  shapedFor_ingress_cons rfl ⟨rfl, rfl, Or.inr ⟨by decide, by decide, by decide⟩⟩

theorem permitTen_backed : PermitsBacked .ingress clientIP permitTen := by
  have hrank : ∀ rule ∈ permitTen, rule.action = .permit →
      2 < ruleRank .ingress rule := by
    decide
  constructor
  · intro t _ rule hrule hpermit _ hle
    exact absurd (hrank rule hrule hpermit) (not_lt.mpr hle)
  · intro t _ rule hrule hpermit hcovers _
    refine ⟨rule, hrule, hpermit, ?_⟩
    simpa [covers] using hcovers

theorem convertedTable_preserves_permitTen :
    ShapedFor .ingress permitTen ∧ clientIP.OneHost ∧
      ∀ t, OfPod .ingress clientIP t → PreservedFor id .ingress 10 clientIP
        "contiv/vpp-policy-" permitTen t :=
  ⟨permitTen_shaped, clientIP_oneHost,
    (convertedTable_preserves_iff permitTen_shaped clientIP_oneHost).mpr
      fun _ => permitTen_backed⟩

end ContivVPP.SessionCache
