import ContivVPP.PolicyCache

/-!
# The meaning of label selectors

What a selector says about the labels of an object, and which selectors cannot
be met.  A label is required by a selector if the selector cannot be met any
more once the label is excluded.
-/

namespace ContivVPP.PolicyCache

open K8s

def expressionLabels (expression : LabelExpression) : List Label :=
  constructLabels expression.key expression.value

end ContivVPP.PolicyCache

namespace ContivVPP.K8s

open PolicyCache (expressionLabels constructLabels)

/-! ## The meaning of a selector -/

def HasKey (labels : List Label) (key : String) : Prop :=
  ∃ label ∈ labels, label.key = key

def HasValue (labels : List Label) (key : String) (values : List String) : Prop :=
  ∃ value ∈ values, ⟨key, value⟩ ∈ labels

def LabelExpression.Holds (expression : LabelExpression)
    (labels : List Label) : Prop :=
  match expression.operator with
  | .isIn => HasValue labels expression.key expression.value
  | .notIn => ¬ HasValue labels expression.key expression.value
  | .exists => HasKey labels expression.key
  | .doesNotExist => ¬ HasKey labels expression.key

/-- All labels and expressions of the selector hold for an object with the
labels. -/
def LabelSelector.Selects (selector : LabelSelector) (labels : List Label) :
    Prop :=
  (∀ label ∈ selector.matchLabel, label ∈ labels) ∧
    ∀ expression ∈ selector.matchExpression, expression.Holds labels

instance (labels : List Label) (key : String) : Decidable (HasKey labels key) :=
  inferInstanceAs (Decidable (∃ label ∈ labels, _))

instance (labels : List Label) (key : String) (values : List String) :
    Decidable (HasValue labels key values) :=
  inferInstanceAs (Decidable (∃ value ∈ values, _))

instance (expression : LabelExpression) (labels : List Label) :
    Decidable (expression.Holds labels) := by
  unfold LabelExpression.Holds
  cases expression.operator <;> infer_instance

instance (selector : LabelSelector) (labels : List Label) :
    Decidable (selector.Selects labels) :=
  inferInstanceAs (Decidable (_ ∧ _))

/-- The values have no slashes, and the operators that compare values have
some. -/
structure LabelExpression.Valid (expression : LabelExpression) : Prop where
  slashless : ∀ value ∈ expression.value, Slashless value
  ne_nil : expression.operator = .isIn ∨ expression.operator = .notIn →
    expression.value ≠ []

structure LabelSelector.Valid (selector : LabelSelector) : Prop where
  labels : ∀ label ∈ selector.matchLabel, Slashless label.value
  expressions : ∀ expression ∈ selector.matchExpression, expression.Valid

/-- The names of the pod and the values of its labels have no slashes. -/
structure Pod.Valid (pod : Pod) : Prop where
  ns : ValidName pod.ns
  name : ValidName pod.name
  labels : ∀ label ∈ pod.label, Slashless label.value

variable {e : LabelExpression}

theorem mem_expressionLabels {label : Label} :
    label ∈ expressionLabels e ↔ label.key = e.key ∧ label.value ∈ e.value := by
  rw [expressionLabels, constructLabels, List.mem_map]
  constructor
  · rintro ⟨value, hvalue, rfl⟩
    exact ⟨rfl, hvalue⟩
  · rintro ⟨hkey, hvalue⟩
    exact ⟨label.value, hvalue, by rw [← hkey]⟩

theorem hasValue_iff {labels : List Label} : HasValue labels e.key e.value ↔
      ∃ label ∈ expressionLabels e, label ∈ labels := by
  simp [HasValue, expressionLabels, constructLabels]

/-! ## Selectors that cannot be met -/

/-- An expression with the operator `NOT_IN` names the label. -/
def LabelSelector.Excludes (selector : LabelSelector) (label : Label) : Prop :=
  ∃ e ∈ selector.matchExpression, e.operator = .notIn ∧ label ∈ expressionLabels e

def LabelSelector.NeedsKey (selector : LabelSelector) (key : String) : Prop :=
  HasKey selector.matchLabel key ∨ ∃ e ∈ selector.matchExpression,
    (e.operator = .isIn ∨ e.operator = .exists) ∧ e.key = key

/-- A label, or all values of an expression with the operator `IN`, are
excluded, or a key must be there and must not. -/
def LabelSelector.Contradictory (selector : LabelSelector) : Prop :=
  (∃ label ∈ selector.matchLabel, selector.Excludes label) ∨
  (∃ e ∈ selector.matchExpression, e.operator = .isIn ∧
    ∀ label ∈ expressionLabels e, selector.Excludes label) ∨
  ∃ e ∈ selector.matchExpression, e.operator = .doesNotExist ∧
    selector.NeedsKey e.key

instance (selector : LabelSelector) (label : Label) :
    Decidable (selector.Excludes label) :=
  inferInstanceAs (Decidable (∃ e ∈ selector.matchExpression, _))

instance (selector : LabelSelector) (key : String) :
    Decidable (selector.NeedsKey key) :=
  inferInstanceAs (Decidable (_ ∨ _))

instance (selector : LabelSelector) : Decidable selector.Contradictory :=
  inferInstanceAs (Decidable (_ ∨ _))

def ValidLabels (labels : List Label) : Prop :=
  ∀ label ∈ labels, Slashless label.value

instance (labels : List Label) : Decidable (ValidLabels labels) :=
  inferInstanceAs (Decidable (∀ label ∈ labels, _))

theorem validLabels_expressionLabels (h : e.Valid) :
    ValidLabels (expressionLabels e) :=
  fun _ hlabel => h.slashless _ (mem_expressionLabels.mp hlabel).2

theorem exists_fresh_value (values : List String) :
    ∃ value, Slashless value ∧ value ∉ values := by
  have hinj : Function.Injective fun n =>
      String.ofList (List.replicate n 'a') := by
    intro m n heq
    simpa using congrArg (fun text => text.toList.length) heq
  obtain ⟨_, ⟨n, rfl⟩, hn⟩ :=
    (Set.infinite_range_of_injective hinj).exists_notMem_finset values.toFinset
  refine ⟨_, ?_, fun hmem => hn (List.mem_toFinset.mpr hmem)⟩
  simp [Slashless]

section Satisfiable

variable {selector : LabelSelector} {labels : List Label} {label : Label}

theorem LabelSelector.Selects.not_excludes (h : selector.Selects labels)
    (hexcludes : selector.Excludes label) : label ∉ labels := by
  obtain ⟨e, he, hop, hmem⟩ := hexcludes
  have hholds := h.2 e he
  rw [LabelExpression.Holds, hop] at hholds
  exact fun hlabel => hholds (hasValue_iff.mpr ⟨label, hmem, hlabel⟩)

theorem LabelSelector.Selects.exists_label (h : selector.Selects labels)
    (he : e ∈ selector.matchExpression) (hop : e.operator = .isIn) :
    ∃ label ∈ expressionLabels e, label ∈ labels := by
  have hholds := h.2 e he
  rw [LabelExpression.Holds, hop] at hholds
  exact hasValue_iff.mp hholds

theorem LabelSelector.Selects.hasKey (h : selector.Selects labels)
    {key : String} (hkey : selector.NeedsKey key) : HasKey labels key := by
  rcases hkey with ⟨label, hlabel, rfl⟩ | ⟨e, he, hop | hop, rfl⟩
  · exact ⟨label, h.1 label hlabel, rfl⟩
  · obtain ⟨label, hmem, hlabel⟩ := h.exists_label he hop
    exact ⟨label, hlabel, (mem_expressionLabels.mp hmem).1⟩
  · have hholds := h.2 e he
    rwa [LabelExpression.Holds, hop] at hholds

theorem LabelSelector.Selects.not_contradictory
    (h : selector.Selects labels) : ¬ selector.Contradictory := by
  rintro (⟨label, hlabel, hexcludes⟩ | ⟨e, he, hop, hall⟩ | ⟨e, he, hop, hkey⟩)
  · exact h.not_excludes hexcludes (h.1 label hlabel)
  · obtain ⟨label, hmem, hlabel⟩ := h.exists_label he hop
    exact h.not_excludes (hall label hmem) hlabel
  · have hholds := h.2 e he
    rw [LabelExpression.Holds, hop] at hholds
    exact hholds (h.hasKey hkey)

def LabelSelector.model (selector : LabelSelector) (value : String) :
    List Label :=
  selector.matchLabel ++ selector.matchExpression.flatMap fun e =>
    match e.operator with
    | .isIn => (expressionLabels e).filter (¬ selector.Excludes ·)
    | .exists => [⟨e.key, value⟩]
    | _ => []

theorem LabelSelector.mem_model {value : String} :
    label ∈ selector.model value ↔ label ∈ selector.matchLabel ∨
      ∃ e ∈ selector.matchExpression,
        (e.operator = .isIn ∧ label ∈ expressionLabels e ∧
          ¬ selector.Excludes label) ∨
        (e.operator = .exists ∧ label = ⟨e.key, value⟩) := by
  rw [model, List.mem_append, List.mem_flatMap]
  refine or_congr_right (exists_congr fun e => and_congr_right fun _ => ?_)
  cases e.operator <;> simp

theorem LabelSelector.selects_model (h : ¬ selector.Contradictory)
    {value : String}
    (hvalue : ∀ e ∈ selector.matchExpression, value ∉ e.value) :
    selector.Selects (selector.model value) := by
  simp only [Contradictory, not_or, not_exists, not_and] at h
  obtain ⟨hlabels, hin, hkeys⟩ := h
  refine ⟨fun label hlabel => mem_model.mpr (Or.inl hlabel), ?_⟩
  intro e he
  rw [LabelExpression.Holds]
  cases hop : e.operator with
  | isIn =>
      have hsome := hin e he hop
      simp only [not_forall] at hsome
      obtain ⟨label, hlabel, hnot⟩ := hsome
      exact hasValue_iff.mpr ⟨label, hlabel,
        mem_model.mpr (Or.inr ⟨e, he, Or.inl ⟨hop, hlabel, hnot⟩⟩)⟩
  | notIn =>
      rintro hhas
      obtain ⟨label, hlabel, hmodel⟩ := hasValue_iff.mp hhas
      have hexcludes : selector.Excludes label := ⟨e, he, hop, hlabel⟩
      rcases mem_model.mp hmodel with hmem | ⟨e', _, ⟨_, _, hnot⟩ | ⟨_, heq⟩⟩
      · exact hlabels label hmem hexcludes
      · exact hnot hexcludes
      · rw [heq, mem_expressionLabels] at hlabel
        exact hvalue e he hlabel.2
  | «exists» =>
      exact ⟨⟨e.key, value⟩,
        mem_model.mpr (Or.inr ⟨e, he, Or.inr ⟨hop, rfl⟩⟩), rfl⟩
  | doesNotExist =>
      rintro ⟨label, hmodel, hkey⟩
      refine hkeys e he hop ?_
      rcases mem_model.mp hmodel with hmem | ⟨e', he', ⟨hop', hlabel, _⟩ |
        ⟨hop', rfl⟩⟩
      · exact Or.inl ⟨label, hmem, hkey⟩
      · exact Or.inr ⟨e', he', Or.inl hop',
          (mem_expressionLabels.mp hlabel).1.symm.trans hkey⟩
      · exact Or.inr ⟨e', he', Or.inr hop', hkey⟩

theorem LabelSelector.exists_selects (hvalid : selector.Valid)
    (h : ¬ selector.Contradictory) :
    ∃ labels, ValidLabels labels ∧ selector.Selects labels := by
  obtain ⟨value, hslashless, hvalue⟩ := exists_fresh_value
    (selector.matchExpression.flatMap LabelExpression.value)
  refine ⟨selector.model value, fun label hlabel => ?_,
    selector.selects_model h fun e he hmem =>
      hvalue (List.mem_flatMap.mpr ⟨e, he, hmem⟩)⟩
  rcases mem_model.mp hlabel with hmem | ⟨e, he, ⟨_, hmem, _⟩ | ⟨_, rfl⟩⟩
  · exact hvalid.labels label hmem
  · exact validLabels_expressionLabels (hvalid.expressions e he) label hmem
  · exact hslashless

def LabelSelector.without (selector : LabelSelector) (label : Label) :
    LabelSelector :=
  { selector with
    matchExpression :=
      ⟨label.key, .notIn, [label.value]⟩ :: selector.matchExpression }

def LabelSelector.Requires (selector : LabelSelector) (label : Label) : Prop :=
  (selector.without label).Contradictory

instance (selector : LabelSelector) (label : Label) :
    Decidable (selector.Requires label) :=
  inferInstanceAs (Decidable (LabelSelector.Contradictory _))

theorem LabelSelector.selects_without : (selector.without label).Selects labels ↔
      label ∉ labels ∧ selector.Selects labels := by
  simp only [Selects, without, List.forall_mem_cons, LabelExpression.Holds,
    HasValue, List.mem_singleton, exists_eq_left]
  tauto

theorem LabelSelector.Selects.mem_of_requires (h : selector.Selects labels)
    (hlabel : selector.Requires label) : label ∈ labels := by
  by_contra hnot
  exact (selects_without.mpr ⟨hnot, h⟩).not_contradictory hlabel

theorem LabelSelector.requires_of_forall (hvalid : selector.Valid)
    (hlabel : Slashless label.value)
    (h : ∀ labels, ValidLabels labels → selector.Selects labels →
      label ∈ labels) : selector.Requires label := by
  by_contra hnot
  have hwithout : (selector.without label).Valid := by
    refine ⟨hvalid.labels, List.forall_mem_cons.mpr ⟨⟨?_, ?_⟩,
      hvalid.expressions⟩⟩
    · simpa using hlabel
    · simp
  obtain ⟨labels, hlabels, hselects⟩ := exists_selects hwithout hnot
  obtain ⟨habsent, hselects⟩ := selects_without.mp hselects
  exact habsent (h labels hlabels hselects)

end Satisfiable

end ContivVPP.K8s
