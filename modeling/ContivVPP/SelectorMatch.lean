import ContivVPP.PolicyProcessorEvents

/-!
# Selectors in the policy processor

When a pod changes, the processor evaluates the selectors of the peers of all
policies itself.  The loop over the expressions stops at the first one that
asks for a key the pod has, and the tests of single expressions are not those
of the data model.  The result is right for the selectors that are described
here.
-/

namespace ContivVPP.Processor

open K8s PolicyCache

/-! ## What is tested -/

def Carries (pod : Pod) (ns : String) (label : Label) : Prop :=
  nsLabel ns label ∈ pod.label.map (nsLabel pod.ns)

def CarriesKey (pod : Pod) (ns key : String) : Prop :=
  ns ++ "/" ++ key ∈ pod.label.map fun label => pod.ns ++ "/" ++ label.key

instance (pod : Pod) (ns : String) (label : Label) :
    Decidable (Carries pod ns label) :=
  inferInstanceAs (Decidable (_ ∈ _))

instance (pod : Pod) (ns key : String) : Decidable (CarriesKey pod ns key) :=
  inferInstanceAs (Decidable (_ ∈ _))

def PassesTest (pod : Pod) (ns : String) (expression : LabelExpression) : Prop :=
  match expression.operator with
  | .isIn => ∀ value ∈ expression.value, Carries pod ns ⟨expression.key, value⟩
  | .notIn =>
      ¬ ∀ value ∈ expression.value, Carries pod ns ⟨expression.key, value⟩
  | .exists => True
  | .doesNotExist => CarriesKey pod ns expression.key

def EndsLoop (pod : Pod) (ns : String) (expression : LabelExpression) : Prop :=
  expression.operator = .exists ∧ CarriesKey pod ns expression.key

instance (pod : Pod) (ns : String) (expression : LabelExpression) :
    Decidable (EndsLoop pod ns expression) :=
  inferInstanceAs (Decidable (_ ∧ _))

def testedExpressions (pod : Pod) (ns : String)
    (expressions : List LabelExpression) : List LabelExpression :=
  expressions.takeWhile fun expression => ¬ EndsLoop pod ns expression

section Match

variable {pod : Pod} {ns : String} {labels : List Label}
  {expressions : List LabelExpression}

theorem carries_iff {label : Label} (hpod : pod.Valid) (hns : ValidName ns)
    (hvalue : Slashless label.value) :
    Carries pod ns label ↔ ns = pod.ns ∧ label ∈ pod.label := by
  rw [Carries, List.mem_map]
  constructor
  · intro hcarries
    obtain ⟨label', hlabel', heq⟩ := hcarries
    obtain ⟨hnsEq, rfl⟩ := (nsLabel_inj hpod.ns hns
      (hpod.labels label' hlabel') hvalue).mp heq
    exact ⟨hnsEq.symm, hlabel'⟩
  · intro hlabel
    exact ⟨label, hlabel.2, by rw [hlabel.1]⟩

theorem isMatchLabel_iff : isMatchLabel pod labels ns = true ↔
      ∀ label ∈ labels, Carries pod ns label := by
  simp [isMatchLabel, Carries]

theorem isMatchLabel_constructLabels {key : String} {values : List String} :
    isMatchLabel pod (constructLabels key values) ns = true ↔
      ∀ value ∈ values, Carries pod ns ⟨key, value⟩ := by
  rw [isMatchLabel_iff, constructLabels, List.forall_mem_map]

theorem testedExpressions_cons {expression : LabelExpression} :
    testedExpressions pod ns (expression :: expressions) =
      if EndsLoop pod ns expression then []
      else expression :: testedExpressions pod ns expressions := by
  rw [testedExpressions, List.takeWhile_cons]
  split_ifs with htest hends <;> simp_all [testedExpressions]

theorem isMatchExpression_iff : isMatchExpression pod ns expressions = true ↔
      ∀ expression ∈ testedExpressions pod ns expressions,
        PassesTest pod ns expression := by
  induction expressions with
  | nil => simp [isMatchExpression, testedExpressions]
  | cons expression expressions ih =>
      obtain ⟨key, operator, values⟩ := expression
      have hvalues : isMatchLabel pod (constructLabels key values) ns = true ↔
          ∀ value ∈ values, Carries pod ns ⟨key, value⟩ :=
        isMatchLabel_constructLabels
      rw [testedExpressions_cons]
      cases operator with
      | isIn =>
          rw [if_neg (by simp [EndsLoop]), List.forall_mem_cons, ← ih]
          simp only [isMatchExpression, PassesTest, ← hvalues]
          split_ifs with hmatch <;> simp [hmatch]
      | notIn =>
          rw [if_neg (by simp [EndsLoop]), List.forall_mem_cons, ← ih]
          simp only [isMatchExpression, PassesTest, ← hvalues]
          split_ifs with hmatch <;> simp [hmatch]
      | «exists» =>
          simp only [isMatchExpression, EndsLoop, true_and, CarriesKey]
          split_ifs with hkey
          · simp
          · rw [List.forall_mem_cons, ← ih]
            simp [PassesTest]
      | doesNotExist =>
          rw [if_neg (by simp [EndsLoop]), List.forall_mem_cons, ← ih]
          simp only [isMatchExpression, PassesTest, CarriesKey]
          split_ifs with hkey <;> simp [hkey]

theorem calculateLabelSelectorMatches_iff :
    calculateLabelSelectorMatches pod labels expressions ns = true ↔
      (∀ label ∈ labels, Carries pod ns label) ∧
        ∀ expression ∈ testedExpressions pod ns expressions,
          PassesTest pod ns expression := by
  rw [← isMatchLabel_iff, ← isMatchExpression_iff, calculateLabelSelectorMatches]
  split_ifs with hboth hexpressions hlabels
  · rw [Bool.and_eq_true]
  · obtain rfl : labels = [] := by
      by_contra hne
      exact hboth ⟨hne, hexpressions⟩
    simp [isMatchLabel]
  · obtain rfl : expressions = [] := not_not.mp hexpressions
    simp [isMatchExpression]
  · obtain rfl : expressions = [] := not_not.mp hexpressions
    obtain rfl : labels = [] := not_not.mp hlabels
    simp [isMatchLabel, isMatchExpression]

end Match

/-! ## The tests in terms of the labels -/

def TestHolds (labels : List Label) (e : LabelExpression) : Prop :=
  match e.operator with
  | .isIn => ∀ label ∈ expressionLabels e, label ∈ labels
  | .notIn => ¬ ∀ label ∈ expressionLabels e, label ∈ labels
  | .exists => True
  | .doesNotExist => HasKey labels e.key

/-- The points where the loop may end with a match: the expressions that are
tested before, and the key that is found. -/
def cuts : List LabelExpression → List (List LabelExpression × List String)
  | [] => [([], [])]
  | e :: es =>
      (if e.operator = .exists then [([], [e.key])] else []) ++
        (cuts es).map fun cut => (e :: cut.1, cut.2)

def PassesCut (labels : List Label)
    (cut : List LabelExpression × List String) : Prop :=
  (∀ e ∈ cut.1, TestHolds labels e) ∧ ∀ key ∈ cut.2, HasKey labels key

section Tests

variable {pod : Pod} {ns : String} {labels : List Label}
  {e : LabelExpression} {es : List LabelExpression}
  {cut : List LabelExpression × List String}

theorem carriesKey_iff {key : String} (hpod : pod.Valid) (hns : ValidName ns) :
    CarriesKey pod ns key ↔ ns = pod.ns ∧ HasKey pod.label key := by
  rw [CarriesKey, List.mem_map]
  constructor
  · rintro ⟨label, hlabel, heq⟩
    obtain ⟨hnsEq, hkey⟩ :=
      (slash_inj_left hpod.ns.slashless hns.slashless).mp heq
    exact ⟨hnsEq.symm, label, hlabel, hkey⟩
  · rintro ⟨rfl, label, hlabel, rfl⟩
    exact ⟨label, hlabel, rfl⟩

theorem forall_carries_iff (hpod : pod.Valid) (hns : ValidName ns)
    (he : e.Valid) :
    (∀ value ∈ e.value, Carries pod ns ⟨e.key, value⟩) ↔
      ∀ label ∈ expressionLabels e, ns = pod.ns ∧ label ∈ pod.label := by
  rw [expressionLabels, constructLabels, List.forall_mem_map]
  exact forall₂_congr fun value hvalue =>
    carries_iff hpod hns (he.slashless value hvalue)

theorem passesTest_iff (hpod : pod.Valid) (he : e.Valid) :
    PassesTest pod pod.ns e ↔ TestHolds pod.label e := by
  rw [PassesTest, TestHolds]
  cases e.operator <;>
    simp [forall_carries_iff hpod hpod.ns he, carriesKey_iff hpod hpod.ns]

theorem exists_mem_cuts_cons {P : List LabelExpression × List String → Prop} :
    (∃ cut ∈ cuts (e :: es), P cut) ↔ e.operator = .exists ∧ P ([], [e.key]) ∨
        ∃ cut ∈ cuts es, P (e :: cut.1, cut.2) := by
  rw [cuts]
  constructor
  · rintro ⟨cut, hcut, hP⟩
    rcases List.mem_append.mp hcut with hhead | htail
    · split_ifs at hhead with hop
      · exact Or.inl ⟨hop, List.mem_singleton.mp hhead ▸ hP⟩
      · cases hhead
    · obtain ⟨cut', hcut', rfl⟩ := List.mem_map.mp htail
      exact Or.inr ⟨cut', hcut', hP⟩
  · rintro (⟨hop, hP⟩ | ⟨cut, hcut, hP⟩)
    · exact ⟨_, List.mem_append_left _ (by simp [hop]), hP⟩
    · exact ⟨_, List.mem_append_right _ (List.mem_map_of_mem hcut), hP⟩

theorem passesCut_cons {keys : List String} : PassesCut labels (e :: es, keys) ↔
      TestHolds labels e ∧ PassesCut labels (es, keys) := by
  simp only [PassesCut, List.forall_mem_cons, and_assoc]

theorem subset_of_mem_cuts (h : cut ∈ cuts es) : cut.1 ⊆ es := by
  induction es generalizing cut with
  | nil =>
      obtain rfl := List.mem_singleton.mp h
      exact List.Subset.refl _
  | cons e es ih =>
      rcases exists_mem_cuts_cons.mp ⟨cut, h, rfl⟩ with ⟨_, rfl⟩ |
        ⟨cut', hcut', rfl⟩
      · exact List.nil_subset _
      · exact List.cons_subset_cons e (ih hcut')

theorem tested_iff_cuts (hpod : pod.Valid) (hes : ∀ e ∈ es, e.Valid) :
    (∀ e ∈ testedExpressions pod pod.ns es, PassesTest pod pod.ns e) ↔
      ∃ cut ∈ cuts es, PassesCut pod.label cut := by
  induction es with
  | nil => simp [testedExpressions, cuts, PassesCut]
  | cons e es ih =>
      obtain ⟨he, hes⟩ := List.forall_mem_cons.mp hes
      have hends : EndsLoop pod pod.ns e ↔
          e.operator = .exists ∧ PassesCut pod.label ([], [e.key]) := by
        simp [EndsLoop, carriesKey_iff hpod hpod.ns, PassesCut]
      rw [testedExpressions_cons, exists_mem_cuts_cons, ← hends]
      split_ifs with hend
      · simp [hend]
      · simp only [List.forall_mem_cons, passesTest_iff hpod he, ih hes, hend,
          false_or, passesCut_cons]
        exact ⟨fun ⟨htest, cut, hcut, hpass⟩ => ⟨cut, hcut, htest, hpass⟩,
          fun ⟨cut, hcut, htest, hpass⟩ => ⟨htest, cut, hcut, hpass⟩⟩

theorem exists_passesCut_iff
    (h : ∀ e ∈ es, e.operator = .exists → HasKey labels e.key) :
    (∃ cut ∈ cuts es, PassesCut labels cut) ↔
      ∀ e ∈ es.takeWhile (·.operator ≠ .exists), TestHolds labels e := by
  induction es with
  | nil => simp [cuts, PassesCut]
  | cons e es ih =>
      obtain ⟨he, hes⟩ := List.forall_mem_cons.mp h
      rw [exists_mem_cuts_cons]
      by_cases hop : e.operator = .exists
      · simp [hop, PassesCut, he hop]
      · simp only [hop, false_and, false_or, passesCut_cons,
          List.takeWhile_cons, ne_eq, not_false_eq_true, decide_true, if_true,
          List.forall_mem_cons, ← ih hes]
        exact ⟨fun ⟨cut, hcut, htest, hpass⟩ => ⟨htest, cut, hcut, hpass⟩,
          fun ⟨htest, cut, hcut, hpass⟩ => ⟨cut, hcut, htest, hpass⟩⟩

end Tests

/-! ## Selectors that are tested as they are meant -/

def demanded (selector : LabelSelector)
    (cut : List LabelExpression × List String) : List Label :=
  selector.matchLabel ++ cut.1.flatMap fun e =>
    if e.operator = .isIn then expressionLabels e else []

def CutNever (selector : LabelSelector)
    (cut : List LabelExpression × List String) : Prop :=
  ∃ e ∈ cut.1, e.operator = .notIn ∧
    ∀ label ∈ expressionLabels e, label ∈ demanded selector cut

def CutImplies (selector : LabelSelector)
    (cut : List LabelExpression × List String) (e : LabelExpression) : Prop :=
  match e.operator with
  | .isIn => ∃ label ∈ expressionLabels e, label ∈ demanded selector cut
  | .notIn => ∀ label ∈ expressionLabels e, ∃ e' ∈ cut.1,
      e'.operator = .notIn ∧ ∀ label' ∈ expressionLabels e', label' = label
  | .exists => HasKey (demanded selector cut) e.key ∨ e.key ∈ cut.2
  | .doesNotExist => False

/-- The selectors with which every pod is tested as the selector means: pods of
other namespaces are refused, each cut implies all expressions or cannot be
passed, and the expressions before the first key that must exist refuse no
selected pod. -/
structure TestedExactly (selector : LabelSelector) : Prop where
  outside : selector.matchLabel ≠ [] ∨ ∃ e ∈ selector.matchExpression,
    e.operator = .isIn ∨ e.operator = .doesNotExist
  sound : ∀ cut ∈ cuts selector.matchExpression, CutNever selector cut ∨
    ∀ e ∈ selector.matchExpression, CutImplies selector cut e
  complete : ∀ e ∈ selector.matchExpression.takeWhile (·.operator ≠ .exists),
    (e.operator = .isIn → ∀ label ∈ expressionLabels e, selector.Requires label) ∧
    (e.operator = .doesNotExist → selector.Contradictory)

section Exact

variable {selector : LabelSelector} {labels : List Label}
  {cut : List LabelExpression × List String}

theorem mem_demanded {label : Label} :
    label ∈ demanded selector cut ↔ label ∈ selector.matchLabel ∨
      ∃ e ∈ cut.1, e.operator = .isIn ∧ label ∈ expressionLabels e := by
  rw [demanded, List.mem_append, List.mem_flatMap]
  refine or_congr_right (exists_congr fun e => and_congr_right fun _ => ?_)
  split_ifs with hop <;> simp [hop]

theorem demanded_subset (hlabels : selector.matchLabel ⊆ labels)
    (hcut : PassesCut labels cut) : demanded selector cut ⊆ labels := by
  intro label hlabel
  rcases mem_demanded.mp hlabel with hmem | ⟨e, he, hop, hmem⟩
  · exact hlabels hmem
  · have htest := hcut.1 e he
    rw [TestHolds, hop] at htest
    exact htest label hmem

theorem TestedExactly.selects_of_passesCut (h : TestedExactly selector)
    (hmem : cut ∈ cuts selector.matchExpression)
    (hlabels : selector.matchLabel ⊆ labels) (hcut : PassesCut labels cut) :
    selector.Selects labels := by
  have hdemanded := demanded_subset hlabels hcut
  -- A test with the operator `NOT_IN` fails if the pod has all the labels.
  have hnotIn : ∀ e ∈ cut.1, e.operator = .notIn →
      ¬ ∀ label ∈ expressionLabels e, label ∈ labels := by
    intro e he hop
    have htest := hcut.1 e he
    rwa [TestHolds, hop] at htest
  rcases h.sound cut hmem with ⟨e, he, hop, hall⟩ | himplies
  · exact absurd (fun label hlabel => hdemanded (hall label hlabel))
      (hnotIn e he hop)
  · refine ⟨hlabels, fun e he => ?_⟩
    have himplies := himplies e he
    rw [CutImplies] at himplies
    rw [LabelExpression.Holds]
    cases hop : e.operator with
    | isIn =>
        rw [hop] at himplies
        obtain ⟨label, hlabel, hmem⟩ := himplies
        exact hasValue_iff.mpr ⟨label, hlabel, hdemanded hmem⟩
    | notIn =>
        rw [hop] at himplies
        intro hhas
        obtain ⟨label, hlabel, hmem⟩ := hasValue_iff.mp hhas
        obtain ⟨e', he', hop', hsingle⟩ := himplies label hlabel
        refine hnotIn e' he' hop' fun label' hlabel' => ?_
        rwa [hsingle label' hlabel']
    | «exists» =>
        rw [hop] at himplies
        rcases himplies with ⟨label, hlabel, hkey⟩ | hkey
        · exact ⟨label, hdemanded hlabel, hkey⟩
        · exact hcut.2 e.key hkey
    | doesNotExist =>
        rw [hop] at himplies
        exact himplies.elim

theorem TestedExactly.testHolds (h : TestedExactly selector)
    (hvalid : selector.Valid) (hselects : selector.Selects labels) :
    ∀ e ∈ selector.matchExpression.takeWhile (·.operator ≠ .exists),
      TestHolds labels e := by
  intro e he
  have hmem := List.takeWhile_subset _ he
  rw [TestHolds]
  cases hop : e.operator with
  | isIn =>
      intro label hlabel
      exact hselects.mem_of_requires ((h.complete e he).1 hop label hlabel)
  | notIn =>
      intro hall
      obtain ⟨value, hvalue⟩ := List.exists_mem_of_ne_nil _
        ((hvalid.expressions e hmem).ne_nil (Or.inr hop))
      have hlabel : (⟨e.key, value⟩ : Label) ∈ expressionLabels e :=
        mem_expressionLabels.mpr ⟨rfl, hvalue⟩
      exact hselects.not_excludes ⟨e, hmem, hop, hlabel⟩ (hall _ hlabel)
  | «exists» => trivial
  | doesNotExist =>
      exact absurd ((h.complete e he).2 hop) hselects.not_contradictory

/-- What a cut demands, keys with a value of their own, and more labels. -/
def cutModel (selector : LabelSelector)
    (cut : List LabelExpression × List String) (value : String)
    (keys : List String) (more : List Label) : List Label :=
  demanded selector cut ++ (keys.map fun key => ⟨key, value⟩) ++ more

section CutModel

variable {label : Label} {value : String} {keys : List String}
  {more : List Label}

theorem mem_cutModel : label ∈ cutModel selector cut value keys more ↔
    label ∈ demanded selector cut ∨ (∃ key ∈ keys, ⟨key, value⟩ = label) ∨
      label ∈ more := by
  simp [cutModel]

theorem cutModel_valid (hvalid : selector.Valid)
    (hsub : cut.1 ⊆ selector.matchExpression) (hvalue : Slashless value)
    (hmore : ValidLabels more) :
    ValidLabels (cutModel selector cut value keys more) := by
  intro label hlabel
  rcases mem_cutModel.mp hlabel with hlabel | ⟨key, _, rfl⟩ | hlabel
  · rcases mem_demanded.mp hlabel with hlabel | ⟨e, he, _, hlabel⟩
    · exact hvalid.labels label hlabel
    · exact validLabels_expressionLabels
        (hvalid.expressions e (hsub he)) label hlabel
  · exact hvalue
  · exact hmore label hlabel

theorem passesCut_cutModel (hvalue : ∀ e ∈ cut.1, value ∉ e.value)
    (hkeys : cut.2 ⊆ keys)
    (hdne : ∀ e ∈ cut.1, e.operator = .doesNotExist → e.key ∈ keys)
    (hnotIn : ∀ e ∈ cut.1, e.operator = .notIn → ∃ label ∈ expressionLabels e,
      label ∉ demanded selector cut ∧ label ∉ more) :
    PassesCut (cutModel selector cut value keys more) cut := by
  have hkey : ∀ key ∈ keys,
      HasKey (cutModel selector cut value keys more) key := fun key hkey =>
    ⟨⟨key, value⟩, mem_cutModel.mpr (Or.inr (Or.inl ⟨key, hkey, rfl⟩)), rfl⟩
  refine ⟨fun e he => ?_, fun key hcut => hkey key (hkeys hcut)⟩
  rw [TestHolds]
  cases hop : e.operator with
  | isIn =>
      intro label hlabel
      exact mem_cutModel.mpr
        (Or.inl (mem_demanded.mpr (Or.inr ⟨e, he, hop, hlabel⟩)))
  | notIn =>
      intro hall
      obtain ⟨label, hlabel, hdemanded, hnot⟩ := hnotIn e he hop
      rcases mem_cutModel.mp (hall label hlabel) with
        hin | ⟨key, _, rfl⟩ | hin
      · exact hdemanded hin
      · exact hvalue e he (mem_expressionLabels.mp hlabel).2
      · exact hnot hin
  | «exists» => trivial
  | doesNotExist => exact hkey e.key (hdne e he hop)

end CutModel

/-- If the pods that pass a cut are all selected, the cut implies the
expressions or cannot be passed. -/
theorem cut_exact (hvalid : selector.Valid)
    (hmem : cut ∈ cuts selector.matchExpression)
    (h : ∀ labels, ValidLabels labels → selector.matchLabel ⊆ labels →
      PassesCut labels cut → selector.Selects labels) :
    CutNever selector cut ∨
      ∀ e ∈ selector.matchExpression, CutImplies selector cut e := by
  by_cases hnever : CutNever selector cut
  · exact Or.inl hnever
  right
  have hsub := subset_of_mem_cuts hmem
  obtain ⟨value, hslashless, hfresh⟩ := exists_fresh_value
    (selector.matchExpression.flatMap LabelExpression.value)
  have hvalue : ∀ e ∈ selector.matchExpression, value ∉ e.value :=
    fun e he hin => hfresh (List.mem_flatMap.mpr ⟨e, he, hin⟩)
  have hmodel : ∀ keys more, ValidLabels more → cut.2 ⊆ keys →
      (∀ e ∈ cut.1, e.operator = .doesNotExist → e.key ∈ keys) →
      (∀ e ∈ cut.1, e.operator = .notIn → ∃ label ∈ expressionLabels e,
        label ∉ demanded selector cut ∧ label ∉ more) →
      selector.Selects (cutModel selector cut value keys more) := by
    intro keys more hmore hkeys hdne hnotIn
    refine h _ (cutModel_valid hvalid hsub hslashless hmore) ?_
      (passesCut_cutModel (fun e he => hvalue e (hsub he)) hkeys hdne hnotIn)
    intro label hlabel
    exact mem_cutModel.mpr (Or.inl (mem_demanded.mpr (Or.inl hlabel)))
  have hfree : ∀ e ∈ cut.1, e.operator = .notIn →
      ∃ label ∈ expressionLabels e, label ∉ demanded selector cut := by
    intro e he hop
    by_contra hnone
    refine hnever ⟨e, he, hop, fun label hlabel => ?_⟩
    by_contra hnot
    exact hnone ⟨label, hlabel, hnot⟩
  -- A pod may pass the cut with any further keys.
  have hdne : ∀ e ∈ selector.matchExpression, e.operator ≠ .doesNotExist := by
    intro e he hop
    have hholds := (hmodel (cut.2 ++ selector.matchExpression.map (·.key)) []
      (by simp [ValidLabels]) (List.subset_append_left _ _)
      (fun e' he' _ => List.mem_append_right _
        (List.mem_map_of_mem (hsub he'))) (by simpa using hfree)).2 e he
    rw [LabelExpression.Holds, hop] at hholds
    refine hholds ⟨⟨e.key, value⟩, mem_cutModel.mpr (Or.inr (Or.inl ?_)), rfl⟩
    exact ⟨e.key, List.mem_append_right _ (List.mem_map_of_mem he), rfl⟩
  have hleast := hmodel cut.2 [] (by simp [ValidLabels]) (List.Subset.refl _)
    (fun e he hop => absurd hop (hdne e (hsub he))) (by simpa using hfree)
  intro e he
  have hholds := hleast.2 e he
  rw [LabelExpression.Holds] at hholds
  rw [CutImplies]
  cases hop : e.operator with
  | isIn =>
      rw [hop] at hholds
      obtain ⟨label, hlabel, hin⟩ := hasValue_iff.mp hholds
      rcases mem_cutModel.mp hin with hin | ⟨key, _, rfl⟩ | hin
      · exact ⟨label, hlabel, hin⟩
      · exact absurd (mem_expressionLabels.mp hlabel).2 (hvalue e he)
      · cases hin
  | notIn =>
      intro label hlabel
      by_contra hnone
      simp only [not_exists, not_and, not_forall] at hnone
      have hlabels : ValidLabels [label] := List.forall_mem_singleton.mpr
        (validLabels_expressionLabels (hvalid.expressions e he) label hlabel)
      -- The pod with the label passes the cut as well.
      have hpasses : ∀ e' ∈ cut.1, e'.operator = .notIn →
          ∃ label' ∈ expressionLabels e',
            label' ∉ demanded selector cut ∧ label' ∉ [label] := by
        intro e' he' hop'
        obtain ⟨label', hlabel', hne⟩ := hnone e' he' hop'
        refine ⟨label', hlabel', fun hdemanded => ?_, by simpa using hne⟩
        exact hleast.not_excludes ⟨e', hsub he', hop', hlabel'⟩
          (mem_cutModel.mpr (Or.inl hdemanded))
      have hselects := hmodel cut.2 [label] hlabels (List.Subset.refl _)
        (fun e' he' hop' => absurd hop' (hdne e' (hsub he'))) hpasses
      exact hselects.not_excludes ⟨e, he, hop, hlabel⟩
        (mem_cutModel.mpr (Or.inr (Or.inr (List.mem_singleton_self _))))
  | «exists» =>
      rw [hop] at hholds
      obtain ⟨label, hin, hkey⟩ := hholds
      rcases mem_cutModel.mp hin with hin | ⟨key, hcut, rfl⟩ | hin
      · exact Or.inl ⟨label, hin, hkey⟩
      · exact Or.inr (hkey ▸ hcut)
      · cases hin
  | doesNotExist => exact hdne e he hop

/-- If the selected pods pass the loop, the expressions before the first key
that must exist refuse none. -/
theorem complete_exact (hvalid : selector.Valid)
    (h : ∀ labels, ValidLabels labels → selector.Selects labels →
      ∃ cut ∈ cuts selector.matchExpression, PassesCut labels cut) :
    ∀ e ∈ selector.matchExpression.takeWhile (·.operator ≠ .exists),
      (e.operator = .isIn →
        ∀ label ∈ expressionLabels e, selector.Requires label) ∧
      (e.operator = .doesNotExist → selector.Contradictory) := by
  have htests : ∀ labels, ValidLabels labels → selector.Selects labels →
      ∀ e ∈ selector.matchExpression.takeWhile (·.operator ≠ .exists),
        TestHolds labels e := by
    intro labels hlabels hselects
    refine (exists_passesCut_iff fun e he hop => ?_).mp
      (h labels hlabels hselects)
    exact hselects.hasKey (Or.inr ⟨e, he, Or.inr hop, rfl⟩)
  intro e he
  have hmem := List.takeWhile_subset _ he
  constructor
  · intro hop label hlabel
    refine LabelSelector.requires_of_forall hvalid
      (validLabels_expressionLabels (hvalid.expressions e hmem) label hlabel) ?_
    intro labels hlabels hselects
    have htest := htests labels hlabels hselects e he
    rw [TestHolds, hop] at htest
    exact htest label hlabel
  · intro hop
    by_contra hnot
    obtain ⟨labels, hlabels, hselects⟩ :=
      LabelSelector.exists_selects hvalid hnot
    have htest := htests labels hlabels hselects e he
    have hholds := hselects.2 e hmem
    rw [TestHolds, hop] at htest
    rw [LabelExpression.Holds, hop] at hholds
    exact hholds htest

theorem matches_outside_iff (hvalid : selector.Valid) {pod : Pod}
    (hpod : pod.Valid) {ns : String} (hns : ValidName ns)
    (hne : pod.ns ≠ ns) :
    calculateLabelSelectorMatches pod selector.matchLabel
        selector.matchExpression ns = true ↔
      selector.matchLabel = [] ∧ ∀ e ∈ selector.matchExpression,
        e.operator ≠ .isIn ∧ e.operator ≠ .doesNotExist := by
  have hkey : ∀ key, ¬ CarriesKey pod ns key := fun key hkey =>
    hne ((carriesKey_iff hpod hns).mp hkey).1.symm
  have htested : testedExpressions pod ns selector.matchExpression =
      selector.matchExpression := by
    refine List.takeWhile_eq_self_iff.mpr fun e _ => ?_
    simp [EndsLoop, hkey]
  rw [calculateLabelSelectorMatches_iff, htested, List.eq_nil_iff_forall_not_mem]
  refine and_congr (forall₂_congr fun label hlabel => ?_)
    (forall₂_congr fun e he => ?_)
  · rw [carries_iff hpod hns (hvalid.labels label hlabel)]
    simp [hne.symm]
  · have he := hvalid.expressions e he
    have hall : (∀ value ∈ e.value, Carries pod ns ⟨e.key, value⟩) ↔
        e.value = [] := by
      rw [forall_carries_iff hpod hns he]
      simp [hne.symm, expressionLabels, constructLabels,
        List.eq_nil_iff_forall_not_mem]
    rw [PassesTest]
    cases hop : e.operator <;> simp [hall, hkey, he.ne_nil, hop]

theorem matches_inside_iff (hvalid : selector.Valid) {pod : Pod}
    (hpod : pod.Valid) :
    calculateLabelSelectorMatches pod selector.matchLabel
        selector.matchExpression pod.ns = true ↔
      selector.matchLabel ⊆ pod.label ∧
        ∃ cut ∈ cuts selector.matchExpression, PassesCut pod.label cut := by
  rw [calculateLabelSelectorMatches_iff, tested_iff_cuts hpod hvalid.expressions]
  refine and_congr_left fun _ => forall₂_congr fun label hlabel => ?_
  rw [carries_iff hpod hpod.ns (hvalid.labels label hlabel), and_iff_right rfl]

end Exact

/-- The processor finds out whether a selector of a policy selects a pod,
whatever the pod, for the selectors that are tested exactly and no others. -/
theorem labelSelectorMatches_correct_iff (selector : LabelSelector)
    (hvalid : selector.Valid) :
    (∀ (pod : Pod) (ns : String), pod.Valid → ValidName ns →
      (calculateLabelSelectorMatches pod selector.matchLabel
          selector.matchExpression ns = true ↔
        pod.ns = ns ∧ selector.Selects pod.label)) ↔
    TestedExactly selector := by
  constructor
  · intro h
    have hname : ValidName "default" ∧ ValidName "a" ∧ ValidName "other" := by
      decide
    have hpod : ∀ labels, ValidLabels labels →
        (labelledPod "a" labels).Valid := fun labels hlabels =>
      ⟨hname.1, hname.2.1, hlabels⟩
    have hinside : ∀ labels, ValidLabels labels → ((selector.matchLabel ⊆ labels ∧
          ∃ cut ∈ cuts selector.matchExpression, PassesCut labels cut) ↔
            selector.Selects labels) := by
      intro labels hlabels
      refine (matches_inside_iff hvalid (hpod labels hlabels)).symm.trans
        ((h _ "default" (hpod labels hlabels) hname.1).trans ?_)
      exact and_iff_right rfl
    refine ⟨?_, fun cut hcut => cut_exact hvalid hcut ?_,
      complete_exact hvalid fun labels hlabels hselects =>
        ((hinside labels hlabels).mpr hselects).2⟩
    · have hempty : ValidLabels [] := by simp [ValidLabels]
      have houtside := matches_outside_iff hvalid (hpod [] hempty)
        hname.2.2 (by decide)
      have hfalse := h _ "other" (hpod [] hempty) hname.2.2
      rw [houtside] at hfalse
      by_contra hnot
      simp only [not_or, not_not, not_exists, not_and] at hnot
      have hns : "default" = "other" := (hfalse.mp hnot).1
      exact absurd hns (by decide)
    · intro labels hlabels hsub hpass
      exact (hinside labels hlabels).mp ⟨hsub, cut, hcut, hpass⟩
  · intro h pod ns hpod hns
    by_cases heq : pod.ns = ns
    · subst heq
      rw [matches_inside_iff hvalid hpod, and_iff_right rfl]
      constructor
      · rintro ⟨hlabels, cut, hcut, hpass⟩
        exact h.selects_of_passesCut hcut hlabels hpass
      · intro hselects
        refine ⟨hselects.1, (exists_passesCut_iff fun e he hop => ?_).mpr
          (h.testHolds hvalid hselects)⟩
        exact hselects.hasKey (Or.inr ⟨e, he, Or.inr hop, rfl⟩)
    · rw [matches_outside_iff hvalid hpod hns heq]
      refine iff_of_false (fun hnone => ?_) (fun hin => heq hin.1)
      rcases h.outside with hne | ⟨e, he, hop | hop⟩
      · exact hne hnone.1
      · exact (hnone.2 e he).1 hop
      · exact (hnone.2 e he).2 hop

def productionShop : LabelSelector :=
  ⟨[⟨"app", "shop"⟩],
    [⟨"env", .isIn, ["prod"]⟩, ⟨"tier", .notIn, ["db"]⟩]⟩

theorem productionShop_valid : productionShop.Valid where
  labels := by decide
  expressions := List.forall_mem_cons.mpr ⟨⟨by decide, by simp⟩,
    List.forall_mem_singleton.mpr ⟨by decide, by simp⟩⟩

theorem productionShop_testedExactly : TestedExactly productionShop := by
  refine ⟨Or.inl (by decide), ?_, by decide⟩
  simp [productionShop, cuts, CutImplies, mem_demanded, expressionLabels,
    constructLabels]

def productionPod : Pod :=
  labelledPod "shop" [⟨"app", "shop"⟩, ⟨"env", "prod"⟩, ⟨"tier", "web"⟩]

theorem labelSelectorMatches_correct_iff_productionShop :
    TestedExactly productionShop ∧
    (calculateLabelSelectorMatches productionPod productionShop.matchLabel
        productionShop.matchExpression "default" = true ↔
      productionPod.ns = "default" ∧
        productionShop.Selects productionPod.label) :=
  ⟨productionShop_testedExactly,
    (labelSelectorMatches_correct_iff productionShop productionShop_valid).mpr
      productionShop_testedExactly productionPod "default"
      ⟨by decide, by decide, by decide⟩ (by decide)⟩

/-- A key that has to exist is not required if the pod lacks it. -/
theorem labelSelectorMatches_missingKey :
    calculateLabelSelectorMatches shopPod [] [⟨"env", .exists, []⟩]
        "default" = true ∧
      ¬ LabelSelector.Selects ⟨[], [⟨"env", .exists, []⟩]⟩ shopPod.label := by
  decide +kernel

end ContivVPP.Processor
