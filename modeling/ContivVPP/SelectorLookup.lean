import Mathlib.Data.List.DropRight
import ContivVPP.SelectorMeaning

/-!
# Pods of a label selector

The evaluation of a selector is compared with its meaning.  Of several labels
the loop keeps only the last two, after it has compared each label with the
next; of the expressions only those with the operator `IN` count in the end,
and of their values again the last two.
-/

namespace ContivVPP.PolicyCache

open K8s GoMap

/-- Each pod is registered under its own identifier. -/
def Cache.PodsRegistered (c : Cache) : Prop :=
  ∀ id pod, c.configuredPods.lookup id = some pod → id = pod.id.string ∧ pod.Valid

/-- The pod is registered and belongs to the namespace. -/
def Cache.HasPod (c : Cache) (ns : String) (pod : Pod) : Prop :=
  c.configuredPods.lookup pod.id.string = some pod ∧ pod.ns = ns

/-! ## Names of pods -/

structure Found (c : Cache) (ns : String) (R : Pod → Prop)
    (names : List String) : Prop where
  nodup : names.Nodup
  mem_iff : ∀ x, x ∈ names ↔ ∃ pod, c.HasPod ns pod ∧ R pod ∧ x = pod.id.string

section Found

variable {c : Cache} {ns : String} {R R' : Pod → Prop}
  {names names' : List String}

theorem Found.congr (h : Found c ns R names)
    (hR : ∀ pod, c.HasPod ns pod → (R pod ↔ R' pod)) :
    Found c ns R' names where
  nodup := h.nodup
  mem_iff x := by
    rw [h.mem_iff]
    exact exists_congr fun pod =>
      and_congr_right fun hpod => and_congr_left fun _ => hR pod hpod

theorem Found.eq_nil_iff (h : Found c ns R names) :
    names = [] ↔ ¬ ∃ pod, c.HasPod ns pod ∧ R pod := by
  rw [List.eq_nil_iff_forall_not_mem]
  constructor
  · intro hnil hex
    obtain ⟨pod, hpod, hR⟩ := hex
    exact hnil _ ((h.mem_iff _).mpr ⟨pod, hpod, hR, rfl⟩)
  · intro hnone x hx
    obtain ⟨pod, hpod, hR, _⟩ := (h.mem_iff x).mp hx
    exact hnone ⟨pod, hpod, hR⟩

theorem Cache.HasPod.eq_of_string {pod pod' : Pod} (h : c.HasPod ns pod)
    (h' : c.HasPod ns pod') (hid : pod.id.string = pod'.id.string) :
    pod = pod' := by
  have hlookup := h.1
  rw [hid, h'.1] at hlookup
  exact (Option.some.inj hlookup).symm

theorem Found.intersect (h : Found c ns R names) (h' : Found c ns R' names') :
    Found c ns (fun pod => R pod ∧ R' pod)
      (PolicyCache.intersect names names') where
  nodup := h'.nodup.filter _
  mem_iff x := by
    rw [mem_intersect, h.mem_iff, h'.mem_iff]
    constructor
    · intro hx
      obtain ⟨⟨pod, hpod, hR', hid⟩, pod', hpod', hR, hid'⟩ := hx
      have heq := hpod.eq_of_string hpod' (hid.symm.trans hid')
      subst heq
      exact ⟨pod, hpod, ⟨hR, hR'⟩, hid⟩
    · intro hx
      obtain ⟨pod, hpod, hR, hid⟩ := hx
      exact ⟨⟨pod, hpod, hR.2, hid⟩, pod, hpod, hR.1, hid⟩

theorem unstringPodID_registered (hc : c.PodsRegistered)
    (hnames : ∀ x ∈ names, ∃ pod, c.configuredPods.lookup x = some pod) :
    ∃ ids, unstringPodID names = some ids ∧ (names.Nodup → ids.Nodup) ∧
      ∀ id, id ∈ ids ↔ ∃ pod, c.configuredPods.lookup pod.id.string = some pod ∧
          pod.id.string ∈ names ∧ id = pod.id := by
  have hinhabited : Nonempty Pod := ⟨⟨"", "", [], ""⟩⟩
  choose! podOf hpodOf using hnames
  let ids := names.map fun x => (podOf x).id
  have hmap : ids.map PodID.string = names := by
    rw [List.map_map]
    refine (List.map_congr_left fun x hx => ?_).trans (List.map_id names)
    exact (hc x _ (hpodOf x hx)).1.symm
  have hvalid : ∀ id ∈ ids, ValidName id.ns ∧ ValidName id.name := by
    intro id hid
    obtain ⟨x, hx, rfl⟩ := List.mem_map.mp hid
    have hpod := (hc x _ (hpodOf x hx)).2
    exact ⟨hpod.ns, hpod.name⟩
  refine ⟨ids, hmap ▸ unstringPodID_map hvalid,
    fun hnodup => List.Nodup.of_map PodID.string (hmap ▸ hnodup),
    fun id => ?_⟩
  constructor
  · intro hid
    obtain ⟨x, hx, rfl⟩ := List.mem_map.mp hid
    have hlookup := hpodOf x hx
    have hstring := (hc x _ hlookup).1
    exact ⟨podOf x, hstring ▸ hlookup, hstring ▸ hx, rfl⟩
  · intro hex
    obtain ⟨pod, hlookup, hmem, rfl⟩ := hex
    have hns := (hc _ pod hlookup).2.ns
    rw [← hmap, List.mem_map] at hmem
    obtain ⟨id, hid, heq⟩ := hmem
    rw [← (PodID.string_inj (hvalid id hid).1 hns).mp heq]
    exact hid

theorem Found.unstring (h : Found c ns R names) (hc : c.PodsRegistered) :
    ∃ ids, unstringPodID names = some ids ∧ ids.Nodup ∧
      ∀ id, id ∈ ids ↔ ∃ pod, c.HasPod ns pod ∧ R pod ∧ id = pod.id := by
  obtain ⟨ids, heq, hnodup, hids⟩ := unstringPodID_registered hc (by
    intro x hx
    obtain ⟨pod, hpod, _, rfl⟩ := (h.mem_iff x).mp hx
    exact ⟨pod, hpod.1⟩)
  refine ⟨ids, heq, hnodup h.nodup, fun id => ?_⟩
  rw [hids]
  constructor
  · intro hex
    obtain ⟨pod, hlookup, hmem, rfl⟩ := hex
    obtain ⟨pod', hpod', hR, hid⟩ := (h.mem_iff _).mp hmem
    rw [hid, hpod'.1, Option.some.injEq] at hlookup
    subst hlookup
    exact ⟨pod', hpod', hR, rfl⟩
  · intro hex
    obtain ⟨pod, hpod, hR, rfl⟩ := hex
    exact ⟨pod, hpod.1, (h.mem_iff _).mpr ⟨pod, hpod, hR, rfl⟩, rfl⟩

theorem listAllPods_spec (o : RangeOrder String) (hc : c.PodsRegistered) :
    ∃ ids, listAllPods o c = some ids ∧ ids.Nodup ∧ ∀ id, id ∈ ids ↔ ∃ pod,
        c.configuredPods.lookup pod.id.string = some pod ∧ id = pod.id := by
  have hkeys : ∀ x, x ∈ o.order c.configuredPods.keys ↔
      ∃ pod, c.configuredPods.lookup x = some pod := by
    intro x
    rw [RangeOrder.mem_order, ← AList.mem_keys, ← AList.lookup_isSome,
      Option.isSome_iff_exists]
  obtain ⟨ids, heq, hnodup, hids⟩ :=
    unstringPodID_registered hc fun x hx => (hkeys x).mp hx
  refine ⟨ids, heq, hnodup ((o.perm _).nodup_iff.mpr
    c.configuredPods.keys_nodup), fun id => ?_⟩
  rw [hids]
  refine exists_congr fun pod => and_congr_right fun hlookup => ?_
  exact and_iff_right ((hkeys _).mpr ⟨pod, hlookup⟩)

end Found

/-! ## Index lookups -/

variable {label label' : Label}

section Index

variable {o : RangeOrder String} {c : Cache} {ns : String}

theorem nsLabel_inj {ns' : String} (hns : ValidName ns) (hns' : ValidName ns')
    (hvalue : Slashless label.value) (hvalue' : Slashless label'.value) :
    nsLabel ns label = nsLabel ns' label' ↔ ns = ns' ∧ label = label' := by
  obtain ⟨key, value⟩ := label
  obtain ⟨key', value'⟩ := label'
  rw [nsLabel, nsLabel, slash_inj_left hns.slashless hns'.slashless,
    slash_inj_right hvalue hvalue', Label.mk.injEq]

theorem mem_nsLabelIndex {pod : Pod} {text : String} :
    text ∈ PodIdx.indexFunction o pod PodIdx.podNSLabelSelectorKey ↔
      ∃ label ∈ pod.label, nsLabel pod.ns label = text :=
  List.mem_map

theorem mem_nsKeyIndex {pod : Pod} {text : String} :
    text ∈ PodIdx.indexFunction o pod PodIdx.podNSKeySelectorKey ↔
      ∃ label ∈ pod.label, pod.ns ++ "/" ++ label.key = text := by
  have hindex : PodIdx.indexFunction o pod PodIdx.podNSKeySelectorKey =
      removeDuplicates o
        (pod.label.map fun v => pod.ns ++ "/" ++ v.key) := rfl
  rw [hindex, mem_removeDuplicates, List.mem_map]

theorem found_listNames (hc : c.PodsRegistered) {field value : String}
    {R : Pod → Prop}
    (hR : ∀ pod, pod.Valid →
      (value ∈ PodIdx.indexFunction o pod field ↔ pod.ns = ns ∧ R pod)) :
    Found c ns R (listNames o (PodIdx.indexFunction o)
      c.configuredPods field value) where
  nodup := nodup_listNames
  mem_iff x := by
    rw [mem_listNames]
    constructor
    · intro hx
      obtain ⟨pod, hlookup, hvalue⟩ := hx
      obtain ⟨hid, hvalid⟩ := hc x pod hlookup
      rw [hR pod hvalid] at hvalue
      exact ⟨pod, ⟨hid ▸ hlookup, hvalue.1⟩, hvalue.2, hid⟩
    · intro hx
      obtain ⟨pod, hpod, hpodR, rfl⟩ := hx
      have hvalid := (hc _ pod hpod.1).2
      exact ⟨pod, hpod.1, (hR pod hvalid).mpr ⟨hpod.2, hpodR⟩⟩

theorem found_podsWithLabel (o : RangeOrder String) (hc : c.PodsRegistered)
    (hns : ValidName ns) (hvalue : Slashless label.value) :
    Found c ns (label ∈ ·.label) (podsWithLabel o c ns label) := by
  refine found_listNames hc fun pod hvalid => ?_
  rw [mem_nsLabelIndex]
  constructor
  · intro hmem
    obtain ⟨label', hlabel', heq⟩ := hmem
    obtain ⟨heqNs, rfl⟩ := (nsLabel_inj hvalid.ns hns
      (hvalid.labels label' hlabel') hvalue).mp heq
    exact ⟨heqNs, hlabel'⟩
  · intro hpod
    obtain ⟨rfl, hlabel⟩ := hpod
    exact ⟨label, hlabel, rfl⟩

theorem found_podsWithKey (o : RangeOrder String)
    (hc : c.PodsRegistered) (hns : ValidName ns) (key : String) :
    Found c ns (HasKey ·.label key) (PodIdx.lookupPodsByNSKey o c.configuredPods
        (ns ++ "/" ++ key)) := by
  refine found_listNames hc fun pod hvalid => ?_
  rw [mem_nsKeyIndex]
  constructor
  · intro hmem
    obtain ⟨label, hlabel, heq⟩ := hmem
    obtain ⟨heqNs, hkey⟩ :=
      (slash_inj_left hvalid.ns.slashless hns.slashless).mp heq
    exact ⟨heqNs, label, hlabel, hkey⟩
  · intro hpod
    obtain ⟨rfl, label, hlabel, rfl⟩ := hpod
    exact ⟨label, hlabel, rfl⟩

theorem lookupPodsByNamespace_eq_nil (hns : ValidName ns) :
    PodIdx.lookupPodsByNamespace o c.configuredPods ns = [] := by
  have hne : ∀ text, ¬ ValidName text → ns ≠ text := by
    intro text htext heq
    exact htext (heq ▸ hns)
  have hindex : ∀ pod, PodIdx.indexFunction o pod ns = [] := by
    intro pod
    rw [PodIdx.indexFunction, if_neg (hne _ (by decide)),
      if_neg (hne _ (by decide)), if_neg (hne _ (by decide)),
      if_neg (hne _ (by decide)), if_neg (hne _ (by decide))]
  rw [List.eq_nil_iff_forall_not_mem]
  intro x hx
  obtain ⟨pod, _, hmem⟩ := mem_listNames.mp hx
  rw [hindex] at hmem
  cases hmem

end Index

/-! ## Labels -/

def Together (c : Cache) (ns : String) (label label' : Label) : Prop :=
  ∃ pod, c.HasPod ns pod ∧ label ∈ pod.label ∧ label' ∈ pod.label

def Linked (c : Cache) (ns : String) (labels : List Label) : Prop :=
  labels.IsChain (Together c ns)

def CarriesLast (labels : List Label) (pod : Pod) : Prop :=
  ∀ label ∈ labels.rtake 2, label ∈ pod.label

structure Evaluates (c : Cache) (ns : String) (P : Prop) (R : Pod → Prop)
    (result : Bool × List String) : Prop where
  found : P → ∃ names, result = (true, names) ∧ Found c ns R names
  notFound : ¬ P → result = (false, [])

section Labels

variable {o : RangeOrder String} {c : Cache} {ns : String}

theorem carriesLast_pair {pod : Pod} : CarriesLast [label, label'] pod ↔
      label ∈ pod.label ∧ label' ∈ pod.label := by
  simp [CarriesLast, List.rtake]

theorem carriesLast_cons {label'' : Label} {labels : List Label} {pod : Pod} :
    CarriesLast (label :: label' :: label'' :: labels) pod ↔
      CarriesLast (label' :: label'' :: labels) pod := by
  simp [CarriesLast, List.rtake]

theorem intersectNeighbours_evaluates (hc : c.PodsRegistered)
    (hns : ValidName ns) {labels : List Label}
    (hvalue : ∀ l ∈ label :: label' :: labels, Slashless l.value)
    (newPodSet : List String) :
    Evaluates c ns (Linked c ns (label :: label' :: labels))
      (CarriesLast (label :: label' :: labels))
      (intersectNeighbours o c ns (podsWithLabel o c ns label)
        newPodSet (label' :: labels)) := by
  induction labels generalizing label label' newPodSet with
  | nil =>
      have hboth := (found_podsWithLabel o hc hns
        (hvalue label (by simp))).intersect (found_podsWithLabel o hc hns
            (hvalue label' (by simp)))
      rw [intersectNeighbours]
      constructor
      · intro hlinked
        have htogether : Together c ns label label' := by
          simpa [Linked] using hlinked
        rw [if_neg (mt hboth.eq_nil_iff.mp (not_not_intro htogether))]
        exact ⟨_, rfl, hboth.congr fun pod _ => carriesLast_pair.symm⟩
      · intro hlinked
        have htogether : ¬ Together c ns label label' := by
          simpa [Linked] using hlinked
        rw [if_pos (hboth.eq_nil_iff.mpr htogether)]
  | cons label'' labels ih =>
      have hboth := (found_podsWithLabel o hc hns
        (hvalue label (by simp))).intersect (found_podsWithLabel o hc hns
            (hvalue label' (by simp)))
      rw [intersectNeighbours]
      have ih := @ih label' label''
        (fun l hl => hvalue l (List.mem_cons_of_mem label hl))
        (PolicyCache.intersect (podsWithLabel o c ns label)
          (podsWithLabel o c ns label'))
      constructor
      · intro hlinked
        have hchain := List.isChain_cons_cons.mp hlinked
        rw [if_neg (mt hboth.eq_nil_iff.mp (not_not_intro hchain.1))]
        obtain ⟨names, heq, hfound⟩ := ih.found hchain.2
        exact ⟨names, heq, hfound.congr fun pod _ => carriesLast_cons.symm⟩
      · intro hlinked
        by_cases htogether : Together c ns label label'
        · rw [if_neg (mt hboth.eq_nil_iff.mp (not_not_intro htogether))]
          refine ih.notFound fun hrest => hlinked ?_
          exact List.isChain_cons_cons.mpr ⟨htogether, hrest⟩
        · rw [if_pos (hboth.eq_nil_iff.mpr htogether)]

/-- Pods are found if each label occurs together with the next one. -/
theorem getPodsByNSLabelSelector_evaluates (hc : c.PodsRegistered)
    (hns : ValidName ns) {labels : List Label} (hne : labels ≠ [])
    (hvalue : ∀ l ∈ labels, Slashless l.value) :
    ∃ result, getPodsByNSLabelSelector o c ns labels = some result ∧
      Evaluates c ns (Linked c ns labels) (CarriesLast labels) result := by
  match labels with
  | [] => exact absurd rfl hne
  | [label] =>
      refine ⟨_, rfl, ?_⟩
      constructor
      · intro _
        refine ⟨_, rfl, ?_⟩
        refine (found_podsWithLabel o hc hns (hvalue label (by simp))).congr ?_
        intro pod _
        simp [CarriesLast, List.rtake]
      · intro hlinked
        exact absurd (List.isChain_singleton label) hlinked
  | label :: label' :: labels =>
      exact ⟨_, rfl, intersectNeighbours_evaluates hc hns hvalue []⟩

end Labels

/-! ## Expressions -/

/-- The expression does not end the loop, except for the set of the operator
`NOT_IN` if it is empty. -/
def Passes (c : Cache) (ns : String) (expression : LabelExpression) : Prop :=
  match expression.operator with
  | .isIn | .notIn => Linked c ns (expressionLabels expression)
  | .exists | .doesNotExist =>
      ∃ pod, c.HasPod ns pod ∧ HasKey pod.label expression.key

/-- The pods of an expression with the operator `NOT_IN` are not empty. -/
def NotInFound (c : Cache) (ns : String) (expression : LabelExpression) : Prop :=
  ∃ pod, c.HasPod ns pod ∧ CarriesLast (expressionLabels expression) pod

structure AllPass (c : Cache) (ns : String)
    (expressions : List LabelExpression) : Prop where
  passes : ∀ expression ∈ expressions, Passes c ns expression
  notIn : ∀ expression,
    expressions.find? (·.operator = .notIn) = some expression →
      NotInFound c ns expression

/-- The pod carries the last two values of an expression with the operator
`IN`. -/
def CarriesIn (expressions : List LabelExpression) (pod : Pod) : Prop :=
  ∃ expression ∈ expressions, expression.operator = .isIn ∧
    CarriesLast (expressionLabels expression) pod

variable {expressions : List LabelExpression}

section Expressions

variable {o : RangeOrder String} {c : Cache} {ns : String}

def StepPasses (c : Cache) (ns : String) (sets : PodSets)
    (expression : LabelExpression) : Prop :=
  Passes c ns expression ∧ (expression.operator = .notIn →
    sets.notInPodSet = [] → NotInFound c ns expression)

structure StepSpec (c : Cache) (ns : String) (sets : PodSets)
    (expression : LabelExpression) (result : Except Exit PodSets) : Prop where
  goesOn : StepPasses c ns sets expression → ∃ sets', result = .ok sets' ∧
    (∀ x, x ∈ sets'.inPodSet ↔ x ∈ sets.inPodSet ∨
      expression.operator = .isIn ∧ ∃ pod, c.HasPod ns pod ∧
        CarriesLast (expressionLabels expression) pod ∧ x = pod.id.string) ∧
    (sets'.notInPodSet = [] ↔
      sets.notInPodSet = [] ∧ expression.operator ≠ .notIn)
  ends : ¬ StepPasses c ns sets expression → result = .error .notFound

section

variable (hc : c.PodsRegistered) (hns : ValidName ns)
  {expression : LabelExpression}
include hc hns

theorem getPodsByNSLabelSelector_expression (hvalid : expression.Valid)
    (hop : expression.operator = .isIn ∨ expression.operator = .notIn) :
    ∃ result, getPodsByNSLabelSelector o c ns
        (expressionLabels expression) = some result ∧
      Evaluates c ns (Linked c ns (expressionLabels expression))
        (CarriesLast (expressionLabels expression)) result := by
  refine getPodsByNSLabelSelector_evaluates hc hns ?_ ?_
  · simpa [expressionLabels, constructLabels] using hvalid.ne_nil hop
  · intro label hlabel
    obtain ⟨value, hvalue, rfl⟩ := List.mem_map.mp hlabel
    exact hvalid.slashless value hvalue

theorem evalExpression_isIn (hvalid : expression.Valid)
    (hop : expression.operator = .isIn) (sets : PodSets) :
    StepSpec c ns sets expression (evalExpression o c ns sets expression) := by
  obtain ⟨result, heq, heval⟩ := getPodsByNSLabelSelector_expression
    (o := o) hc hns hvalid (Or.inl hop)
  have hpasses : StepPasses c ns sets expression ↔
      Linked c ns (expressionLabels expression) := by
    simp [StepPasses, Passes, hop]
  rw [expressionLabels] at heq
  simp only [evalExpression, hop, heq]
  constructor
  · intro hstep
    obtain ⟨names, rfl, hfound⟩ := heval.found (hpasses.mp hstep)
    refine ⟨_, rfl, fun x => ?_, ?_⟩
    · rw [List.mem_append, hfound.mem_iff]
      simp [hop]
    · simp [hop]
  · intro hstep
    rw [heval.notFound (mt hpasses.mpr hstep)]

theorem evalExpression_notIn (hvalid : expression.Valid)
    (hop : expression.operator = .notIn) (sets : PodSets) :
    StepSpec c ns sets expression (evalExpression o c ns sets expression) := by
  obtain ⟨result, heq, heval⟩ := getPodsByNSLabelSelector_expression
    (o := o) hc hns hvalid (Or.inr hop)
  have hall := lookupPodsByNamespace_eq_nil (o := o) (c := c) hns
  have hpasses : StepPasses c ns sets expression ↔
      Linked c ns (expressionLabels expression) ∧
        (sets.notInPodSet = [] → NotInFound c ns expression) := by
    simp [StepPasses, Passes, hop]
  rw [expressionLabels] at heq
  simp only [evalExpression, hop, heq, hall, difference_nil_left, if_true]
  by_cases hlinked : Linked c ns (expressionLabels expression)
  · obtain ⟨names, rfl, hfound⟩ := heval.found hlinked
    have hempty : sets.notInPodSet ++ names = [] ↔
        sets.notInPodSet = [] ∧ ¬ NotInFound c ns expression := by
      rw [List.append_eq_nil_iff, hfound.eq_nil_iff]
      rfl
    constructor
    · intro hstep
      have hne : ¬ sets.notInPodSet ++ names = [] := by
        rw [hempty]
        exact fun hnil => hnil.2 ((hpasses.mp hstep).2 hnil.1)
      simp only [if_neg hne]
      refine ⟨_, rfl, fun x => ?_, ?_⟩
      · simp [hop]
      · simp only [hop, ne_eq, not_true_eq_false, and_false, iff_false]
        exact hne
    · intro hstep
      have hnil : sets.notInPodSet ++ names = [] := by
        rw [hempty]
        by_contra hcon
        refine hstep (hpasses.mpr ⟨hlinked, fun hnil => ?_⟩)
        by_contra hnone
        exact hcon ⟨hnil, hnone⟩
      simp only [if_pos hnil]
  · rw [heval.notFound hlinked]
    constructor
    · intro hstep
      exact absurd (hpasses.mp hstep).1 hlinked
    · intro _
      rfl

theorem evalExpression_exists (hop : expression.operator = .exists)
    (sets : PodSets) :
    StepSpec c ns sets expression (evalExpression o c ns sets expression) := by
  have hkey := found_podsWithKey o hc hns expression.key
  have hpasses : StepPasses c ns sets expression ↔
      ∃ pod, c.HasPod ns pod ∧ HasKey pod.label expression.key := by
    simp [StepPasses, Passes, hop]
  simp only [evalExpression, hop]
  constructor
  · intro hstep
    rw [if_neg (mt hkey.eq_nil_iff.mp (not_not_intro (hpasses.mp hstep)))]
    exact ⟨_, rfl, fun x => by simp [hop], by simp [hop]⟩
  · intro hstep
    rw [if_pos (hkey.eq_nil_iff.mpr (mt hpasses.mpr hstep))]

theorem evalExpression_doesNotExist (hop : expression.operator = .doesNotExist)
    (sets : PodSets) :
    StepSpec c ns sets expression (evalExpression o c ns sets expression) := by
  have hkey := found_podsWithKey o hc hns expression.key
  have hall := lookupPodsByNamespace_eq_nil (o := o) (c := c) hns
  have hpasses : StepPasses c ns sets expression ↔
      ∃ pod, c.HasPod ns pod ∧ HasKey pod.label expression.key := by
    simp [StepPasses, Passes, hop]
  simp only [evalExpression, hop, hall, difference_nil_left, if_true]
  constructor
  · intro hstep
    have hne := mt hkey.eq_nil_iff.mp (not_not_intro (hpasses.mp hstep))
    rw [if_neg hne, if_neg (by simp [hne])]
    exact ⟨_, rfl, fun x => by simp [hop], by simp [hop]⟩
  · intro hstep
    rw [if_pos (hkey.eq_nil_iff.mpr (mt hpasses.mpr hstep))]

theorem evalExpression_spec (hvalid : expression.Valid) (sets : PodSets) :
    StepSpec c ns sets expression (evalExpression o c ns sets expression) := by
  cases hop : expression.operator with
  | isIn => exact evalExpression_isIn hc hns hvalid hop sets
  | notIn => exact evalExpression_notIn hc hns hvalid hop sets
  | «exists» => exact evalExpression_exists hc hns hop sets
  | doesNotExist => exact evalExpression_doesNotExist hc hns hop sets

end

theorem foldlM_evalExpression (hc : c.PodsRegistered) (hns : ValidName ns)
    (hvalid : ∀ expression ∈ expressions, expression.Valid) (sets : PodSets)
    {P : Prop} (hP : P ↔ (∀ e ∈ expressions, Passes c ns e) ∧
      (sets.notInPodSet = [] → ∀ e,
        expressions.find? (·.operator = .notIn) = some e → NotInFound c ns e)) :
    (P → ∃ sets', expressions.foldlM (evalExpression o c ns) sets = .ok sets' ∧
      ∀ x, x ∈ sets'.inPodSet ↔ x ∈ sets.inPodSet ∨
        ∃ pod, c.HasPod ns pod ∧ CarriesIn expressions pod ∧ x = pod.id.string) ∧
    (¬ P → expressions.foldlM (evalExpression o c ns) sets =
      .error .notFound) := by
  induction expressions generalizing sets P with
  | nil =>
      have hP : P := hP.mpr (by simp)
      refine ⟨fun _ => ⟨sets, rfl, fun x => ?_⟩, fun hnot => absurd hP hnot⟩
      simp [CarriesIn]
  | cons e expressions ih =>
      have hspec := evalExpression_spec (o := o) hc hns
        (hvalid e List.mem_cons_self) sets
      have hvalid' := fun e' he' => hvalid e' (List.mem_cons_of_mem e he')
      -- The condition on the first pass and on the passes after it.
      have hfind : (sets.notInPodSet = [] → ∀ e',
          (e :: expressions).find? (·.operator = .notIn) = some e' →
            NotInFound c ns e') ↔
          (e.operator = .notIn → sets.notInPodSet = [] → NotInFound c ns e) ∧
          (sets.notInPodSet = [] ∧ e.operator ≠ .notIn → ∀ e',
            expressions.find? (·.operator = .notIn) = some e' →
              NotInFound c ns e') := by
        by_cases hop : e.operator = .notIn
        · simp [hop]
        · simp [hop]
      rw [List.foldlM_cons]
      by_cases hstep : StepPasses c ns sets e
      · obtain ⟨sets', heq, hin, hnotIn⟩ := hspec.goesOn hstep
        have ih := ih hvalid' sets' Iff.rfl
        have hP' : P ↔ (∀ e ∈ expressions, Passes c ns e) ∧
            (sets'.notInPodSet = [] → ∀ e,
              expressions.find? (·.operator = .notIn) = some e →
                NotInFound c ns e) := by
          rw [hP, hfind, hnotIn, List.forall_mem_cons]
          constructor
          · exact fun h => ⟨h.1.2, h.2.2⟩
          · exact fun h => ⟨⟨hstep.1, h.1⟩, hstep.2, h.2⟩
        rw [heq, hP']
        refine ⟨fun hpass => ?_, ih.2⟩
        obtain ⟨sets'', heq', hin'⟩ := ih.1 hpass
        refine ⟨sets'', heq', fun x => ?_⟩
        rw [hin', hin, or_assoc]
        refine or_congr_right ?_
        constructor
        · intro hx
          rcases hx with ⟨hop, pod, hpod, hlast, hid⟩ | ⟨pod, hpod, hlast, hid⟩
          · exact ⟨pod, hpod, ⟨e, List.mem_cons_self, hop, hlast⟩, hid⟩
          · obtain ⟨e', he', hlast⟩ := hlast
            exact ⟨pod, hpod, ⟨e', List.mem_cons_of_mem e he', hlast⟩, hid⟩
        · intro hx
          obtain ⟨pod, hpod, ⟨e', he', hop, hlast⟩, hid⟩ := hx
          rcases List.mem_cons.mp he' with rfl | hmem
          · exact Or.inl ⟨hop, pod, hpod, hlast, hid⟩
          · exact Or.inr ⟨pod, hpod, ⟨e', hmem, hop, hlast⟩, hid⟩
      · have hnot : ¬ P := by
          rw [hP, hfind, List.forall_mem_cons]
          exact fun h => hstep ⟨h.1.1, h.2.1⟩
        rw [hspec.ends hstep]
        exact ⟨fun hpass => absurd hpass hnot, fun _ => rfl⟩

theorem getMatchExpressionPods_evaluates (hc : c.PodsRegistered)
    (hns : ValidName ns)
    (hvalid : ∀ expression ∈ expressions, expression.Valid) :
    ∃ result, getMatchExpressionPods o c ns expressions = some result ∧
      Evaluates c ns (AllPass c ns expressions) (CarriesIn expressions)
        result := by
  have hP : AllPass c ns expressions ↔ (∀ e ∈ expressions, Passes c ns e) ∧
      (([] : List String) = [] → ∀ e,
        expressions.find? (·.operator = .notIn) = some e → NotInFound c ns e) :=
    ⟨fun h => ⟨h.passes, fun _ => h.notIn⟩, fun h => ⟨h.1, h.2 rfl⟩⟩
  have hloop := foldlM_evalExpression (o := o) hc hns hvalid ⟨[], [], [], []⟩ hP
  rw [getMatchExpressionPods]
  by_cases hpass : AllPass c ns expressions
  · obtain ⟨sets, heq, hin⟩ := hloop.1 hpass
    rw [heq]
    refine ⟨_, rfl, fun _ => ⟨_, rfl, ?_⟩, fun hnot => absurd hpass hnot⟩
    constructor
    · have hnodup : ∀ names, (removeDuplicates o names).Nodup := by
        intro names
        exact (o.perm _).nodup_iff.mpr (List.nodup_dedup names)
      exact ((hnodup _).filter _).filter _
    · intro x
      simp only [mem_intersect, mem_removeDuplicates, and_self]
      rw [hin]
      simp
  · rw [hloop.2 hpass]
    exact ⟨_, rfl, fun hp => absurd hp hpass, fun _ => rfl⟩

end Expressions

/-! ## Selectors -/

structure CodeSelects (c : Cache) (ns : String) (selector : LabelSelector)
    (pod : Pod) : Prop where
  ne_empty : selector ≠ ⟨[], []⟩
  linked : Linked c ns selector.matchLabel
  labels : CarriesLast selector.matchLabel pod
  expressions : selector.matchExpression ≠ [] →
    AllPass c ns selector.matchExpression ∧ CarriesIn selector.matchExpression pod

variable {e : LabelExpression}

section Selector

variable {o : RangeOrder String} {c : Cache} {ns : String}

theorem Evaluates.unstring {P : Prop} {R : Pod → Prop}
    {result : Bool × List String} (h : Evaluates c ns P R result)
    (hc : c.PodsRegistered) :
    ∃ ids, unstringFound result = some ids ∧ ids.Nodup ∧ ∀ id, id ∈ ids ↔
        ∃ pod, c.HasPod ns pod ∧ (P ∧ R pod) ∧ id = pod.id := by
  by_cases hP : P
  · obtain ⟨names, rfl, hfound⟩ := h.found hP
    have hboth : Found c ns (fun pod => P ∧ R pod) names :=
      hfound.congr fun pod _ => by simp [hP]
    exact hboth.unstring hc
  · rw [h.notFound hP]
    exact ⟨[], rfl, List.nodup_nil, by simp [hP]⟩

theorem codeSelects_labels {labels : List Label} {pod : Pod} :
    CodeSelects c ns ⟨label :: labels, []⟩ pod ↔
      Linked c ns (label :: labels) ∧ CarriesLast (label :: labels) pod := by
  constructor
  · exact fun h => ⟨h.linked, h.labels⟩
  · exact fun h => ⟨by simp, h.1, h.2, fun hne => absurd rfl hne⟩

theorem codeSelects_expressions {pod : Pod} :
    CodeSelects c ns ⟨[], e :: expressions⟩ pod ↔
      AllPass c ns (e :: expressions) ∧ CarriesIn (e :: expressions) pod := by
  constructor
  · exact fun h => h.expressions (by simp)
  · exact fun h =>
      ⟨by simp, by simp [Linked], by simp [CarriesLast], fun _ => h⟩

theorem codeSelects_both {labels : List Label} {pod : Pod} :
    CodeSelects c ns ⟨label :: labels, e :: expressions⟩ pod ↔
      (Linked c ns (label :: labels) ∧ CarriesLast (label :: labels) pod) ∧
        AllPass c ns (e :: expressions) ∧ CarriesIn (e :: expressions) pod := by
  constructor
  · exact fun h => ⟨⟨h.linked, h.labels⟩, h.expressions (by simp)⟩
  · exact fun h => ⟨by simp, h.1.1, h.1.2, fun _ => h.2⟩

theorem lookupPodsByNSLabelSelector_spec (hc : c.PodsRegistered)
    (hns : ValidName ns) {selector : LabelSelector}
    (hvalid : selector.Valid) :
    ∃ ids, lookupPodsByNSLabelSelector o c ns (some selector) = some ids ∧
      ids.Nodup ∧
      ∀ id, id ∈ ids ↔ ∃ pod, c.HasPod ns pod ∧
        CodeSelects c ns selector pod ∧ id = pod.id := by
  match selector with
  | ⟨[], []⟩ =>
      refine ⟨[], rfl, List.nodup_nil, fun id => ?_⟩
      simp only [List.not_mem_nil, false_iff]
      intro hex
      obtain ⟨pod, _, hpod, _⟩ := hex
      exact hpod.ne_empty rfl
  | ⟨label :: labels, []⟩ =>
      obtain ⟨result, heq, heval⟩ := getPodsByNSLabelSelector_evaluates
        (o := o) hc hns (List.cons_ne_nil label labels) hvalid.labels
      simp only [lookupPodsByNSLabelSelector, heq, codeSelects_labels]
      exact heval.unstring hc
  | ⟨[], e :: expressions⟩ =>
      obtain ⟨result, heq, heval⟩ := getMatchExpressionPods_evaluates
        (o := o) hc hns hvalid.expressions
      simp only [lookupPodsByNSLabelSelector, heq, codeSelects_expressions]
      exact heval.unstring hc
  | ⟨label :: labels, e :: expressions⟩ =>
      obtain ⟨ml, hml, hmlEval⟩ := getPodsByNSLabelSelector_evaluates
        (o := o) hc hns (List.cons_ne_nil label labels) hvalid.labels
      obtain ⟨me, hme, hmeEval⟩ := getMatchExpressionPods_evaluates
        (o := o) hc hns hvalid.expressions
      simp only [lookupPodsByNSLabelSelector, hml, hme, codeSelects_both]
      by_cases hlinked : Linked c ns (label :: labels)
      · by_cases hpass : AllPass c ns (e :: expressions)
        · obtain ⟨names, rfl, hfound⟩ := hmlEval.found hlinked
          obtain ⟨names', rfl, hfound'⟩ := hmeEval.found hpass
          refine ((hfound.intersect hfound').congr fun pod _ => ?_).unstring hc
          simp [hlinked, hpass]
        · obtain ⟨names, rfl, _⟩ := hmlEval.found hlinked
          rw [hmeEval.notFound hpass]
          exact ⟨[], rfl, List.nodup_nil, by simp [hpass]⟩
      · rw [hmlEval.notFound hlinked]
        exact ⟨[], rfl, List.nodup_nil, by simp [hlinked]⟩

theorem codeSelects_congr {c' : Cache} (hpods : c.HasPod = c'.HasPod)
    {selector : LabelSelector} {pod : Pod} :
    CodeSelects c ns selector pod ↔ CodeSelects c' ns selector pod := by
  have htogether : Together c ns = Together c' ns := by
    funext label label'
    simp only [Together, hpods]
  have hlinked : Linked c ns = Linked c' ns := by
    funext labels
    simp only [Linked, htogether]
  have hall : AllPass c ns selector.matchExpression ↔
      AllPass c' ns selector.matchExpression := by
    have hpasses : Passes c ns = Passes c' ns := by
      funext expression
      simp only [Passes, hlinked, hpods]
    have hfound : NotInFound c ns = NotInFound c' ns := by
      funext expression
      simp only [NotInFound, hpods]
    constructor
    · intro h
      exact ⟨hpasses ▸ h.passes, hfound ▸ h.notIn⟩
    · intro h
      exact ⟨hpasses ▸ h.passes, hfound ▸ h.notIn⟩
  constructor
  · intro h
    exact ⟨h.ne_empty, hlinked ▸ h.linked, h.labels,
      fun hne => (h.expressions hne).imp_left hall.mp⟩
  · intro h
    exact ⟨h.ne_empty, hlinked ▸ h.linked, h.labels,
      fun hne => (h.expressions hne).imp_left hall.mpr⟩

theorem linked_of_carries {labels : List Label} {pod : Pod}
    (hpod : c.HasPod ns pod) (h : ∀ label ∈ labels, label ∈ pod.label) :
    Linked c ns labels := by
  refine List.Pairwise.isChain (List.pairwise_of_forall_mem_list ?_)
  exact fun label hlabel label' hlabel' =>
    ⟨pod, hpod, h label hlabel, h label' hlabel'⟩

theorem lookup_exact_iff_codeSelects (o : RangeOrder String)
    (hc : c.PodsRegistered) (hns : ValidName ns) {selector : LabelSelector}
    (hvalid : selector.Valid) :
    (∃ ids, lookupPodsByNSLabelSelector o c ns (some selector) = some ids ∧
      ∀ id, id ∈ ids ↔ ∃ pod, c.HasPod ns pod ∧ selector.Selects pod.label ∧
        id = pod.id) ↔
    ∀ pod, c.HasPod ns pod →
      (CodeSelects c ns selector pod ↔ selector.Selects pod.label) := by
  obtain ⟨ids, heq, _, hids⟩ :=
    lookupPodsByNSLabelSelector_spec (o := o) hc hns hvalid
  constructor
  · intro hlookup pod hpod
    obtain ⟨ids', heq', hids'⟩ := hlookup
    obtain rfl : ids' = ids := Option.some.inj (heq'.symm.trans heq)
    have hboth := (hids pod.id).symm.trans (hids' pod.id)
    have hself : ∀ (R : Pod → Prop),
        (∃ pod', c.HasPod ns pod' ∧ R pod' ∧ pod.id = pod'.id) ↔ R pod := by
      intro R
      constructor
      · intro hex
        obtain ⟨pod', hpod', hR, hid⟩ := hex
        have hsame := hpod.eq_of_string hpod' (by rw [hid])
        rw [hsame]
        exact hR
      · exact fun hR => ⟨pod, hpod, hR, rfl⟩
    rwa [hself, hself] at hboth
  · intro h
    refine ⟨ids, heq, fun id => ?_⟩
    rw [hids]
    exact exists_congr fun pod => and_congr_right fun hpod =>
      and_congr_left fun _ => h pod hpod

end Selector

/-! ## Selectors that are evaluated as they are meant -/

/-- The selectors that the right pods are found for, whatever pods there
are. -/
inductive Evaluable (selector : LabelSelector) : Prop
  /-- There are labels only, and the last two are all there are. -/
  | labels (hexpressions : selector.matchExpression = [])
      (hne : selector.matchLabel ≠ [])
      (hlast : ∀ label ∈ selector.matchLabel, label ∈ selector.matchLabel.rtake 2)
  /-- No pod is found and none can be selected. -/
  | never (hne : selector.matchExpression ≠ [])
      (hnoIn : ∀ e ∈ selector.matchExpression, e.operator ≠ .isIn)
      (hcontradictory : selector.Contradictory)
  /-- The last two labels with the last two values of any expression imply the
  selector, which requires all values. -/
  | values (hin : ∃ e ∈ selector.matchExpression, e.operator = .isIn)
      (hoperators : ∀ e ∈ selector.matchExpression,
        e.operator = .isIn ∨ e.operator = .exists)
      (hlast : ∀ e ∈ selector.matchExpression, e.operator = .isIn →
        selector.Selects
          (selector.matchLabel.rtake 2 ++ (expressionLabels e).rtake 2))
      (hrequired : ∀ e ∈ selector.matchExpression, e.operator = .isIn →
        ∀ label ∈ expressionLabels e, selector.Requires label)

section Evaluable

variable {c : Cache} {ns : String} {selector : LabelSelector} {pod : Pod}

theorem selects_of_subset {labels labels' : List Label}
    (hoperators : ∀ e ∈ selector.matchExpression,
      e.operator = .isIn ∨ e.operator = .exists)
    (h : selector.Selects labels) (hsub : labels ⊆ labels') :
    selector.Selects labels' := by
  refine ⟨fun label hlabel => hsub (h.1 label hlabel), fun e he => ?_⟩
  have hholds := h.2 e he
  rw [LabelExpression.Holds] at hholds ⊢
  rcases hoperators e he with hop | hop
  · rw [hop] at hholds ⊢
    obtain ⟨value, hvalue, hlabel⟩ := hholds
    exact ⟨value, hvalue, hsub hlabel⟩
  · rw [hop] at hholds ⊢
    obtain ⟨label, hlabel, hkey⟩ := hholds
    exact ⟨label, hsub hlabel, hkey⟩

theorem Evaluable.codeSelects_iff (h : Evaluable selector)
    (hpod : c.HasPod ns pod) :
    CodeSelects c ns selector pod ↔ selector.Selects pod.label := by
  constructor
  · intro hcode
    cases h with
    | labels hexpressions _ hlast =>
        refine ⟨fun label hlabel => hcode.labels label (hlast label hlabel), ?_⟩
        simp [hexpressions]
    | never hne hnoIn _ =>
        obtain ⟨_, e, he, hop, _⟩ := hcode.expressions hne
        exact absurd hop (hnoIn e he)
    | values hin hoperators hlast _ =>
        obtain ⟨e₀, he₀, _⟩ := hin
        obtain ⟨_, e, he, hop, hcarries⟩ :=
          hcode.expressions (List.ne_nil_of_mem he₀)
        refine selects_of_subset hoperators (hlast e he hop) ?_
        exact List.append_subset.mpr ⟨hcode.labels, hcarries⟩
  · intro hselects
    have hlinked := linked_of_carries hpod hselects.1
    have hcarries : CarriesLast selector.matchLabel pod :=
      fun label hlabel => hselects.1 label (List.mem_of_mem_drop hlabel)
    cases h with
    | labels hexpressions hne _ =>
        exact ⟨fun hempty => hne (by rw [hempty]), hlinked, hcarries,
          fun hes => absurd hexpressions hes⟩
    | never _ _ hcontradictory =>
        exact absurd hcontradictory hselects.not_contradictory
    | values hin hoperators _ hrequired =>
        obtain ⟨e, he, hop⟩ := hin
        refine ⟨?_, hlinked, hcarries, fun _ => ⟨⟨?_, ?_⟩, e, he, hop, ?_⟩⟩
        · intro hempty
          rw [hempty] at he
          cases he
        · intro e' he'
          rw [Passes]
          rcases hoperators e' he' with hop' | hop'
          · rw [hop']
            exact linked_of_carries hpod fun label hlabel =>
              hselects.mem_of_requires (hrequired e' he' hop' label hlabel)
          · rw [hop']
            exact ⟨pod, hpod, hselects.hasKey (Or.inr ⟨e', he', Or.inr hop',
              rfl⟩)⟩
        · intro e' hfind
          have hop' : e'.operator = .notIn := by
            simpa using List.find?_some hfind
          rcases hoperators e' (List.mem_of_find?_eq_some hfind) with h | h
          · rw [h] at hop'
            cases hop'
          · rw [h] at hop'
            cases hop'
        · intro label hlabel
          exact hselects.mem_of_requires
            (hrequired e he hop label (List.mem_of_mem_drop hlabel))

end Evaluable

/-! ## Caches that tell selectors apart -/

def labelledPod (name : String) (labels : List Label) : Pod :=
  ⟨name, "default", labels, ""⟩

def labelled (labels labels' : List Label) : Cache :=
  { Cache.init with
    configuredPods :=
      AList.insert (labelledPod "a" labels).id.string (labelledPod "a" labels)
        (AList.insert (labelledPod "b" labels').id.string
          (labelledPod "b" labels') ∅) }

section Labelled

variable {labels labels' : List Label}

theorem labelled_lookup {id : String} {pod : Pod}
    (h : (labelled labels labels').configuredPods.lookup id = some pod) :
    (id = pod.id.string ∧ pod = labelledPod "a" labels) ∨
      id = pod.id.string ∧ pod = labelledPod "b" labels' := by
  rcases lookup_insert_eq_some h with ⟨rfl, rfl⟩ | ⟨_, hrest⟩
  · exact Or.inl ⟨rfl, rfl⟩
  · rcases lookup_insert_eq_some hrest with ⟨rfl, rfl⟩ | ⟨_, hnone⟩
    · exact Or.inr ⟨rfl, rfl⟩
    · cases hnone

theorem labelled_hasPod :
    (labelled labels labels').HasPod "default" (labelledPod "a" labels) :=
  ⟨AList.lookup_insert _, rfl⟩

theorem labelled_hasPod_other :
    (labelled labels labels').HasPod "default" (labelledPod "b" labels') := by
  refine ⟨?_, rfl⟩
  have hne : PodID.string ⟨"b", "default"⟩ ≠ PodID.string ⟨"a", "default"⟩ := by
    decide
  exact (AList.lookup_insert_ne hne).trans (AList.lookup_insert _)

theorem labelled_registered (h : ValidLabels labels)
    (h' : ValidLabels labels') : (labelled labels labels').PodsRegistered := by
  intro id pod hlookup
  have hname : ValidName "default" ∧ ValidName "a" ∧ ValidName "b" := by
    decide
  rcases labelled_lookup hlookup with ⟨hid, rfl⟩ | ⟨hid, rfl⟩
  · exact ⟨hid, hname.1, hname.2.1, h⟩
  · exact ⟨hid, hname.1, hname.2.2, h'⟩

theorem mem_of_linked_labelled {ls : List Label}
    (h : Linked (labelled labels labels) "default" ls)
    (hlength : 2 ≤ ls.length) : ∀ label ∈ ls, label ∈ labels := by
  have htogether : ∀ {l l'}, Together (labelled labels labels) "default" l l' →
      l ∈ labels ∧ l' ∈ labels := by
    rintro l l' ⟨pod, hpod, hl, hl'⟩
    rcases labelled_lookup hpod.1 with ⟨_, rfl⟩ | ⟨_, rfl⟩ <;> exact ⟨hl, hl'⟩
  match ls with
  | [] => simp
  | [_] => simp at hlength
  | [l, l'] =>
      have hboth := htogether (List.isChain_pair.mp h)
      simpa using hboth
  | l :: l' :: l'' :: ls =>
      obtain ⟨hhead, htail⟩ := List.isChain_cons_cons.mp h
      exact List.forall_mem_cons.mpr ⟨(htogether hhead).1,
        mem_of_linked_labelled htail (by simp)⟩

def namedLabels (selector : LabelSelector) : List Label :=
  selector.matchLabel ++ selector.matchExpression.flatMap fun e =>
    ⟨e.key, ""⟩ :: expressionLabels e

variable {selector : LabelSelector}

theorem expressionLabels_subset_namedLabels (he : e ∈ selector.matchExpression) :
    expressionLabels e ⊆ namedLabels selector := fun _ hlabel =>
  List.mem_append_right _
    (List.mem_flatMap.mpr ⟨e, he, List.mem_cons_of_mem _ hlabel⟩)

theorem hasKey_namedLabels (he : e ∈ selector.matchExpression) :
    HasKey (namedLabels selector) e.key :=
  ⟨⟨e.key, ""⟩, List.mem_append_right _
    (List.mem_flatMap.mpr ⟨e, he, List.mem_cons_self⟩), rfl⟩

theorem validLabels_namedLabels (h : selector.Valid) :
    ValidLabels (namedLabels selector) := by
  intro label hlabel
  rcases List.mem_append.mp hlabel with hmem | hmem
  · exact h.labels label hmem
  · obtain ⟨e, he, hmem⟩ := List.mem_flatMap.mp hmem
    rcases List.mem_cons.mp hmem with rfl | hmem
    · exact (by decide : Slashless "")
    · exact validLabels_expressionLabels (h.expressions e he) label hmem

/-- Next to a pod with all labels that the selector names, the loops come to
their ends, and the last two labels and values decide. -/
theorem codeSelects_namedLabels (hne : selector ≠ ⟨[], []⟩)
    (hlabels : selector.matchLabel.rtake 2 ⊆ labels)
    (hexpressions : selector.matchExpression ≠ [] →
      ∃ e ∈ selector.matchExpression, e.operator = .isIn ∧
        (expressionLabels e).rtake 2 ⊆ labels) :
    CodeSelects (labelled labels (namedLabels selector)) "default" selector
      (labelledPod "a" labels) := by
  have hnamed := @labelled_hasPod_other labels (namedLabels selector)
  refine ⟨hne, linked_of_carries hnamed fun label hlabel =>
    List.mem_append_left _ hlabel, hlabels, fun hes => ⟨⟨?_, ?_⟩,
      hexpressions hes⟩⟩
  · intro e he
    rw [Passes]
    split
    · exact linked_of_carries hnamed (expressionLabels_subset_namedLabels he)
    · exact linked_of_carries hnamed (expressionLabels_subset_namedLabels he)
    · exact ⟨_, hnamed, hasKey_namedLabels he⟩
    · exact ⟨_, hnamed, hasKey_namedLabels he⟩
  · intro e hfind
    exact ⟨_, hnamed, fun label hlabel => expressionLabels_subset_namedLabels
      (List.mem_of_find?_eq_some hfind) (List.mem_of_mem_drop hlabel)⟩

section

variable (hvalid : selector.Valid)
  (h : ∀ labels labels', ValidLabels labels → ValidLabels labels' →
    (CodeSelects (labelled labels labels') "default" selector
      (labelledPod "a" labels) ↔ selector.Selects labels))
include hvalid h

/-- A pod with all labels is found, and must not have excluded ones. -/
theorem isIn_or_exists_of_labelled (hne : selector ≠ ⟨[], []⟩)
    (hin : ∃ e ∈ selector.matchExpression, e.operator = .isIn)
    (he : e ∈ selector.matchExpression) :
    e.operator = .isIn ∨ e.operator = .exists := by
  have hnamed := validLabels_namedLabels hvalid
  obtain ⟨e₀, he₀, hop₀⟩ := hin
  have hselects := (h _ _ hnamed hnamed).mp (codeSelects_namedLabels hne
    (fun label hlabel => List.mem_append_left _ (List.mem_of_mem_drop hlabel))
    fun _ => ⟨e₀, he₀, hop₀, fun label hlabel =>
      expressionLabels_subset_namedLabels he₀ (List.mem_of_mem_drop hlabel)⟩)
  cases hop : e.operator with
  | isIn => exact Or.inl rfl
  | «exists» => exact Or.inr rfl
  | notIn =>
      obtain ⟨value, hvalue⟩ := List.exists_mem_of_ne_nil _
        ((hvalid.expressions e he).ne_nil (Or.inr hop))
      have hlabel : (⟨e.key, value⟩ : Label) ∈ expressionLabels e :=
        mem_expressionLabels.mpr ⟨rfl, hvalue⟩
      exact absurd (expressionLabels_subset_namedLabels he hlabel)
        (hselects.not_excludes ⟨e, he, hop, hlabel⟩)
  | doesNotExist =>
      have hholds := hselects.2 e he
      rw [LabelExpression.Holds, hop] at hholds
      exact absurd (hasKey_namedLabels he) hholds

/-- The values of an expression must occur together on a pod. -/
theorem requires_of_labelled (he : e ∈ selector.matchExpression)
    (hop : e.operator = .isIn) {label : Label}
    (hlabel : label ∈ expressionLabels e) : selector.Requires label := by
  refine LabelSelector.requires_of_forall hvalid
    (validLabels_expressionLabels (hvalid.expressions e he) label hlabel) ?_
  intro labels hlabels hselects
  have hpass := (((h labels labels hlabels hlabels).mpr
    hselects).expressions (List.ne_nil_of_mem he)).1.passes e he
  rw [Passes, hop] at hpass
  obtain ⟨label', hlabel', hmem⟩ := hselects.exists_label he hop
  rcases Nat.lt_or_ge (expressionLabels e).length 2 with hlt | hge
  · obtain ⟨l, hl⟩ := List.length_eq_one_iff.mp
      (Nat.le_antisymm (Nat.le_of_lt_succ hlt) (List.length_pos_of_mem hlabel))
    rw [hl, List.mem_singleton] at hlabel hlabel'
    rwa [hlabel, ← hlabel']
  · exact mem_of_linked_labelled hpass hge label hlabel

/-- A selector that two pods never tell apart from its evaluation is
evaluable. -/
theorem evaluable_of_labelled : Evaluable selector := by
  have hnamed := validLabels_namedLabels hvalid
  have hkept : ∀ {labels : List Label}, ValidLabels labels →
      ValidLabels (labels.rtake 2) := fun hlabels label hlabel =>
    hlabels label (List.mem_of_mem_drop hlabel)
  have hne : selector ≠ ⟨[], []⟩ := by
    rintro rfl
    exact ((h [] [] (by simp [ValidLabels]) (by simp [ValidLabels])).mpr
      ⟨by simp, by simp⟩).ne_empty rfl
  by_cases hexpressions : selector.matchExpression = []
  · refine .labels hexpressions (fun hnil => hne ?_) ?_
    · cases selector
      simp_all
    · exact ((h _ _ (hkept hvalid.labels) hnamed).mp (codeSelects_namedLabels
        hne (List.Subset.refl _) fun hes => absurd hexpressions hes)).1
  by_cases hin : ∃ e ∈ selector.matchExpression, e.operator = .isIn
  · refine .values hin
      (fun e he => isIn_or_exists_of_labelled hvalid h hne hin he)
      (fun e he hop => ?_)
      fun e he hop label => requires_of_labelled hvalid h he hop
    refine (h _ _ ?_ hnamed).mp (codeSelects_namedLabels hne
      (List.subset_append_left _ _)
      fun _ => ⟨e, he, hop, List.subset_append_right _ _⟩)
    exact List.forall_mem_append.mpr ⟨hkept hvalid.labels,
      hkept (validLabels_expressionLabels (hvalid.expressions e he))⟩
  · simp only [not_exists, not_and] at hin
    refine .never hexpressions hin ?_
    by_contra hnot
    obtain ⟨labels, hlabels, hselects⟩ :=
      LabelSelector.exists_selects hvalid hnot
    obtain ⟨_, e, he, hop, _⟩ := ((h labels labels hlabels hlabels).mpr
      hselects).expressions hexpressions
    exact hin e he hop

end

end Labelled

/-- The lookup returns just the selected pods, whatever pods there are, for the
selectors that are evaluable and no others. -/
theorem lookupPodsByNSLabelSelector_exact_iff (selector : LabelSelector)
    (hvalid : selector.Valid) :
    (∀ (o : RangeOrder String) (c : Cache) (ns : String), c.PodsRegistered →
      ValidName ns →
      ∃ ids, lookupPodsByNSLabelSelector o c ns (some selector) = some ids ∧
        ∀ id, id ∈ ids ↔ ∃ pod, c.HasPod ns pod ∧
          selector.Selects pod.label ∧ id = pod.id) ↔
    Evaluable selector := by
  constructor
  · intro h
    refine evaluable_of_labelled hvalid fun labels labels' hlabels hlabels' => ?_
    exact (lookup_exact_iff_codeSelects .insertion
      (labelled_registered hlabels hlabels') (by decide) hvalid).mp
        (h .insertion _ "default" (labelled_registered hlabels hlabels')
          (by decide)) _ labelled_hasPod
  · intro h o c ns hc hns
    exact (lookup_exact_iff_codeSelects o hc hns hvalid).mpr
      fun pod hpod => h.codeSelects_iff hpod

/-! ## Two pods -/

def shopPod : Pod :=
  ⟨"shop", "default", [⟨"app", "shop"⟩, ⟨"tier", "web"⟩], "10.1.1.2"⟩

theorem shopPod_valid : shopPod.Valid := ⟨by decide, by decide, by decide⟩

def blogPod : Pod :=
  ⟨"blog", "default", [⟨"tier", "web"⟩, ⟨"env", "prod"⟩], "10.1.1.3"⟩

def twoPods : Cache :=
  { Cache.init with
    configuredPods := AList.insert shopPod.id.string shopPod
      (AList.insert blogPod.id.string blogPod ∅) }

theorem twoPods_registered : twoPods.PodsRegistered := by
  intro id pod hlookup
  rcases lookup_insert_eq_some hlookup with ⟨rfl, rfl⟩ | ⟨_, hrest⟩
  · exact ⟨rfl, by decide, by decide, by decide⟩
  · rcases lookup_insert_eq_some hrest with ⟨rfl, rfl⟩ | ⟨_, hnone⟩
    · exact ⟨rfl, by decide, by decide, by decide⟩
    · cases hnone

def webShop : LabelSelector :=
  ⟨[⟨"app", "shop"⟩, ⟨"tier", "web"⟩],
    [⟨"tier", .isIn, ["web"]⟩, ⟨"app", .exists, []⟩]⟩

theorem webShop_valid : webShop.Valid where
  labels := by decide
  expressions := List.forall_mem_cons.mpr ⟨⟨by decide, by simp⟩,
    List.forall_mem_singleton.mpr ⟨by decide, by simp⟩⟩

theorem webShop_evaluable : Evaluable webShop :=
  .values (by decide) (by decide) (by decide) (by decide)

theorem lookupPodsByNSLabelSelector_exact_iff_webShop : Evaluable webShop ∧
    ∃ ids, lookupPodsByNSLabelSelector .insertion twoPods "default"
        (some webShop) = some ids ∧
      ∀ id, id ∈ ids ↔ ∃ pod, twoPods.HasPod "default" pod ∧
        webShop.Selects pod.label ∧ id = pod.id :=
  ⟨webShop_evaluable,
    (lookupPodsByNSLabelSelector_exact_iff webShop webShop_valid).mpr
      webShop_evaluable .insertion twoPods "default" twoPods_registered
      (by decide)⟩

def threeLabels : LabelSelector :=
  ⟨[⟨"app", "shop"⟩, ⟨"tier", "web"⟩, ⟨"env", "prod"⟩], []⟩

/-- A pod without the first label is returned. -/
theorem lookup_threeLabels_not_exact :
    lookupPodsByNSLabelSelector .insertion twoPods "default"
        (some threeLabels) = some [blogPod.id] ∧
      twoPods.HasPod "default" blogPod ∧ ¬ threeLabels.Selects blogPod.label := by
  refine ⟨by decide +kernel, ⟨by decide +kernel, rfl⟩, fun h => ?_⟩
  exact absurd (h.1 ⟨"app", "shop"⟩ (by decide)) (by decide)

end ContivVPP.PolicyCache
