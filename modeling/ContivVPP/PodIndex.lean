import Mathlib.Data.String.Basic
import ContivVPP.NamedMapping
import ContivVPP.SelectorLookup

/-!
# The index of pods

Pods are indexed under their namespace, the keys of their labels, and texts of
namespaces, keys and values that are joined by slashes.  The texts can be read
back, since keys alone may have slashes.  The lookup by namespace takes the
namespace for the name of the field as well, because the parameter has the name
of the constant.  So it finds the pods of a namespace only if the namespace is
called like the field.
-/

namespace ContivVPP.PodIndex

open GoMap K8s NamedMapping PolicyCache PodIdx

abbrev ConfigIndex := Mapping String String String Pod

def registerPod (order : RangeOrder String) (podID : String) (data : Pod)
    (ci : ConfigIndex) : ConfigIndex :=
  ci.put podID ⟨data, indexFunction order data⟩

def unregisterPod (podID : String) (ci : ConfigIndex) : ConfigIndex :=
  ci.delete podID

section Lookups

variable (order : SetOrder String) (ci : ConfigIndex)

def lookupPodsByLabelSelector (podLabelSelector : String) : List String :=
  ci.listNames order podLabelSelectorKey podLabelSelector

def lookupPodsByLabelKey (podKeySelector : String) : List String :=
  ci.listNames order podKeySelectorKey podKeySelector

def lookupPodsByNamespace (podNamespace : String) : List String :=
  ci.listNames order podNamespace podNamespace

def lookupPodsByNSLabelSelector (podNSLabelSelector : String) : List String :=
  ci.listNames order podNSLabelSelectorKey podNSLabelSelector

def lookupPodsByNSKey (podNSKeySelector : String) : List String :=
  ci.listNames order podNSKeySelectorKey podNSKeySelector

end Lookups

/-! ## What a pod is indexed under -/

section Fields

variable {order : RangeOrder String} {pod : Pod} {ns key value text : String}

theorem mem_labelIndex : text ∈ indexFunction order pod podLabelSelectorKey ↔
      ∃ label ∈ pod.label, label.key ++ "/" ++ label.value = text :=
  List.mem_map

theorem mem_keyIndex : key ∈ indexFunction order pod podKeySelectorKey ↔
    HasKey pod.label key := by
  have hindex : indexFunction order pod podKeySelectorKey =
      removeDuplicates order (pod.label.map fun v => v.key) := rfl
  rw [hindex, mem_removeDuplicates, List.mem_map]
  rfl

/-- The field that is called like a namespace has the namespace as a value in
two cases only.  The other fields have texts with slashes. -/
theorem mem_index_namespace (hns : Slashless ns) :
    ns ∈ indexFunction order pod ns ↔ ns = podNamespace ∧ pod.ns = ns ∨
        ns = podKeySelectorKey ∧ HasKey pod.label ns := by
  have hslash : ∀ a b : String, a ++ "/" ++ b ≠ ns := by
    rintro a b rfl
    apply hns
    simp
  have hjoined : ∀ f g : Label → String,
      ns ∉ pod.label.map fun v => f v ++ "/" ++ g v := by
    intro f g hmem
    obtain ⟨label, _, heq⟩ := List.mem_map.mp hmem
    exact hslash _ _ heq
  have hneither : ns ≠ podNamespace → ns ≠ podKeySelectorKey →
      ¬ (ns = podNamespace ∧ pod.ns = ns ∨
        ns = podKeySelectorKey ∧ HasKey pod.label ns) := by
    rintro hne hne' (⟨heq, _⟩ | ⟨heq, _⟩)
    · exact hne heq
    · exact hne' heq
  by_cases hnamespace : ns = podNamespace
  · have hindex : indexFunction order pod ns = [pod.ns] := by
      rw [hnamespace]
      rfl
    have hkey : ns ≠ podKeySelectorKey := by
      rw [hnamespace]
      decide
    rw [hindex, List.mem_singleton]
    exact ⟨fun heq => Or.inl ⟨hnamespace, heq.symm⟩, fun h =>
      h.elim (fun h => h.2.symm) fun h => absurd h.1 hkey⟩
  by_cases hkey : ns = podKeySelectorKey
  · have hindex : ns ∈ indexFunction order pod ns ↔ HasKey pod.label ns := by
      rw [hkey]
      exact mem_keyIndex
    rw [hindex]
    exact ⟨fun h => Or.inr ⟨hkey, h⟩, fun h =>
      h.elim (fun h => absurd h.1 hnamespace) And.right⟩
  refine iff_of_false ?_ (hneither hnamespace hkey)
  rw [indexFunction, if_neg hkey, if_neg hnamespace]
  split_ifs
  · exact hjoined Label.key Label.value
  · exact hjoined (fun _ => pod.ns) fun v => v.key ++ "/" ++ v.value
  · rw [mem_removeDuplicates]
    exact hjoined (fun _ => pod.ns) Label.key
  · exact List.not_mem_nil

theorem mem_indexFunction_congr {order' : RangeOrder String} {field : String} :
    text ∈ indexFunction order pod field ↔
      text ∈ indexFunction order' pod field := by
  unfold indexFunction
  split_ifs
  · rfl
  · rw [mem_removeDuplicates, mem_removeDuplicates]
  · rfl
  · rfl
  · rw [mem_removeDuplicates, mem_removeDuplicates]
  · rfl

theorem exists_label_iff (hpod : ∀ label ∈ pod.label, Slashless label.value)
    (hvalue : Slashless value) :
    (∃ label ∈ pod.label,
      label.key ++ "/" ++ label.value = key ++ "/" ++ value) ↔
        ⟨key, value⟩ ∈ pod.label := by
  constructor
  · rintro ⟨label, hlabel, heq⟩
    obtain ⟨rfl, rfl⟩ := (slash_inj_right (hpod label hlabel) hvalue).mp heq
    exact hlabel
  · exact fun hlabel => ⟨_, hlabel, rfl⟩

theorem exists_nsKey_iff (hpod : Slashless pod.ns) (hns : Slashless ns) :
    (∃ label ∈ pod.label, pod.ns ++ "/" ++ label.key = ns ++ "/" ++ key) ↔
      pod.ns = ns ∧ HasKey pod.label key := by
  constructor
  · rintro ⟨label, hlabel, heq⟩
    obtain ⟨heqNs, hkey⟩ := (slash_inj_left hpod hns).mp heq
    exact ⟨heqNs, label, hlabel, hkey⟩
  · rintro ⟨rfl, label, hlabel, rfl⟩
    exact ⟨label, hlabel, rfl⟩

theorem exists_nsLabel_iff (hpod : Slashless pod.ns) (hns : Slashless ns)
    (hlabels : ∀ label ∈ pod.label, Slashless label.value)
    (hvalue : Slashless value) :
    (∃ label ∈ pod.label,
      nsLabel pod.ns label = ns ++ "/" ++ key ++ "/" ++ value) ↔
        pod.ns = ns ∧ ⟨key, value⟩ ∈ pod.label := by
  have htext : ns ++ "/" ++ key ++ "/" ++ value =
      ns ++ "/" ++ (key ++ "/" ++ value) := by
    simp only [String.append_assoc]
  rw [htext, ← exists_label_iff hlabels hvalue]
  constructor
  · rintro ⟨label, hlabel, heq⟩
    obtain ⟨heqNs, heqLabel⟩ := (slash_inj_left hpod hns).mp heq
    exact ⟨heqNs, label, hlabel, heqLabel⟩
  · rintro ⟨rfl, label, hlabel, heq⟩
    exact ⟨label, hlabel, by rw [nsLabel, heq]⟩

end Fields

/-! ## Runs -/

inductive IndexCall where
  | registerPod (order : RangeOrder String) (podID : String) (data : Pod)
  | unregisterPod (podID : String)

def IndexCall.apply (ci : ConfigIndex) : IndexCall → ConfigIndex
  | .registerPod order podID data => PodIndex.registerPod order podID data ci
  | .unregisterPod podID => PodIndex.unregisterPod podID ci

/-- The namespaces and the values of labels have no slashes. -/
def IndexCall.Valid : IndexCall → Prop
  | .registerPod _ _ data => Slashless data.ns ∧
      ∀ label ∈ data.label, Slashless label.value
  | .unregisterPod _ => True

/-- The pods that are registered: for each identifier the last call decides. -/
def registered (calls : List IndexCall) : String → Option Pod :=
  calls.foldl (fun pods call =>
    match call with
    | .registerPod _ podID data => Function.update pods podID (some data)
    | .unregisterPod podID => Function.update pods podID none) fun _ => none

def run (calls : List IndexCall) : ConfigIndex :=
  calls.foldl IndexCall.apply .new

structure Tracks (pods : String → Option Pod) (ci : ConfigIndex) : Prop where
  indexed : ci.Indexed
  lookup : ∀ podID, (ci.nameToIdx.lookup podID).map Item.value = pods podID
  fields : ∀ podID item, ci.nameToIdx.lookup podID = some item →
    ∃ order, item.indexed = indexFunction order item.value

section Runs

variable {pods : String → Option Pod} {ci : ConfigIndex} {calls : List IndexCall}

theorem Tracks.registerPod (h : Tracks pods ci) (order : RangeOrder String)
    (podID : String) (data : Pod) :
    Tracks (Function.update pods podID (some data))
      (registerPod order podID data ci) where
  indexed := h.indexed.put
  lookup podID' := by
    change ((ci.nameToIdx.insert podID _).lookup podID').map Item.value = _
    by_cases heq : podID' = podID
    · rw [heq, AList.lookup_insert, Function.update_self]
      rfl
    · rw [AList.lookup_insert_ne heq, Function.update_of_ne heq, h.lookup]
  fields podID' item hitem := by
    rcases lookup_insert_eq_some hitem with ⟨_, rfl⟩ | ⟨_, hold⟩
    · exact ⟨order, rfl⟩
    · exact h.fields podID' item hold

theorem Tracks.unregisterPod (h : Tracks pods ci) (podID : String) :
    Tracks (Function.update pods podID none) (unregisterPod podID ci) where
  indexed := h.indexed.delete
  lookup podID' := by
    rw [PodIndex.unregisterPod, Mapping.lookup_delete]
    by_cases heq : podID' = podID
    · rw [if_pos heq, heq, Function.update_self]
      rfl
    · rw [if_neg heq, Function.update_of_ne heq, h.lookup]
  fields podID' item hitem := by
    rw [PodIndex.unregisterPod, Mapping.lookup_delete] at hitem
    split_ifs at hitem
    exact h.fields podID' item hitem

theorem run_tracks (calls : List IndexCall) :
    Tracks (registered calls) (run calls) := by
  induction calls using List.reverseRecOn with
  | nil => exact ⟨Mapping.indexed_new, fun _ => rfl, fun _ _ h => by cases h⟩
  | append_singleton calls call ih =>
      rw [run, registered, List.foldl_append, List.foldl_append]
      cases call with
      | registerPod order podID data => exact ih.registerPod order podID data
      | unregisterPod podID => exact ih.unregisterPod podID

theorem registered_valid (hcalls : ∀ call ∈ calls, call.Valid)
    {podID : String} {pod : Pod} (h : registered calls podID = some pod) :
    Slashless pod.ns ∧ ∀ label ∈ pod.label, Slashless label.value := by
  induction calls using List.reverseRecOn generalizing podID with
  | nil => cases h
  | append_singleton calls call ih =>
      have hbefore := fun podID => @ih (fun c hc =>
        hcalls c (List.mem_append_left _ hc)) podID
      have hcall := hcalls call (by simp)
      rw [registered, List.foldl_append] at h
      cases call with
      | registerPod order podID' data =>
          change Function.update (registered calls) podID' (some data) podID =
            some pod at h
          by_cases heq : podID = podID'
          · rw [heq, Function.update_self, Option.some.injEq] at h
            rw [← h]
            exact hcall
          · rw [Function.update_of_ne heq] at h
            exact hbefore podID h
      | unregisterPod podID' =>
          change Function.update (registered calls) podID' none podID =
            some pod at h
          by_cases heq : podID = podID'
          · rw [heq, Function.update_self] at h
            cases h
          · rw [Function.update_of_ne heq] at h
            exact hbefore podID h

theorem Tracks.mem_listNames (h : Tracks pods ci) {order : SetOrder String}
    {order' : RangeOrder String} {podID field text : String} :
    podID ∈ ci.listNames order field text ↔ ∃ pod, pods podID = some pod ∧
      text ∈ indexFunction order' pod field := by
  rw [h.indexed.mem_listNames, ← h.lookup]
  constructor
  · rintro ⟨item, hitem, htext⟩
    obtain ⟨order'', hfields⟩ := h.fields podID item hitem
    rw [hfields, mem_indexFunction_congr] at htext
    exact ⟨item.value, by rw [hitem]; rfl, htext⟩
  · rintro ⟨pod, hpod, htext⟩
    obtain ⟨item, hitem, rfl⟩ := Option.map_eq_some_iff.mp hpod
    obtain ⟨order'', hfields⟩ := h.fields podID item hitem
    exact ⟨item, hitem, by rwa [hfields, mem_indexFunction_congr]⟩

/-- The names are those of the registered pods with the property. -/
structure Exact (pods : String → Option Pod) (P : Pod → Prop)
    (names : List String) : Prop where
  nodup : names.Nodup
  mem_iff : ∀ podID, podID ∈ names ↔ ∃ pod, pods podID = some pod ∧ P pod

theorem Tracks.exact_iff (h : Tracks pods ci) {order : SetOrder String}
    {field text : String} {R P : Pod → Prop}
    (hR : ∀ order pod, text ∈ indexFunction order pod field ↔ R pod) :
    Exact pods P (ci.listNames order field text) ↔
      ∀ podID pod, pods podID = some pod → (R pod ↔ P pod) := by
  have hmem : ∀ podID, podID ∈ ci.listNames order field text ↔
      ∃ pod, pods podID = some pod ∧ R pod := by
    intro podID
    rw [@Tracks.mem_listNames _ _ h order .insertion]
    exact exists_congr fun pod => and_congr_right fun _ => hR _ pod
  constructor
  · intro hexact podID pod hpod
    have hboth := (hmem podID).symm.trans (hexact.mem_iff podID)
    simpa [hpod] using hboth
  · intro hsame
    refine ⟨order.nodup _, fun podID => (hmem podID).trans ?_⟩
    exact exists_congr fun pod => and_congr_right fun hpod =>
      hsame podID pod hpod

end Runs

/-- What the lookups return for a namespace, a key and a value. -/
structure LookupsExact (order : SetOrder String) (calls : List IndexCall)
    (ns key value : String) : Prop where
  byNamespace : Exact (registered calls) (·.ns = ns)
    (lookupPodsByNamespace order (run calls) ns)
  byLabelKey : Exact (registered calls) (HasKey ·.label key)
    (lookupPodsByLabelKey order (run calls) key)
  byLabelSelector : Exact (registered calls) (⟨key, value⟩ ∈ ·.label)
    (lookupPodsByLabelSelector order (run calls) (key ++ "/" ++ value))
  byNSKey : Exact (registered calls) (fun pod => pod.ns = ns ∧
      HasKey pod.label key)
    (lookupPodsByNSKey order (run calls) (ns ++ "/" ++ key))
  byNSLabelSelector : Exact (registered calls) (fun pod => pod.ns = ns ∧
      ⟨key, value⟩ ∈ pod.label)
    (lookupPodsByNSLabelSelector order (run calls)
      (ns ++ "/" ++ key ++ "/" ++ value))

/-- All lookups are exact if the namespace is called like its field, or if the
pods of the namespace are those that the field with the name of the namespace
happens to have: for the name of the field of keys the pods with this key, for
any other name none. -/
theorem lookups_exact_iff {order : SetOrder String} {calls : List IndexCall}
    (hcalls : ∀ call ∈ calls, call.Valid) {ns key value : String}
    (hns : Slashless ns) (hvalue : Slashless value) :
    LookupsExact order calls ns key value ↔ ns = podNamespace ∨
      ∀ podID pod, registered calls podID = some pod →
        (pod.ns = ns ↔ ns = podKeySelectorKey ∧ HasKey pod.label ns) := by
  have h := run_tracks calls
  have hnamespace : Exact (registered calls) (·.ns = ns)
      (lookupPodsByNamespace order (run calls) ns) ↔ ns = podNamespace ∨
      ∀ podID pod, registered calls podID = some pod →
        (pod.ns = ns ↔ ns = podKeySelectorKey ∧ HasKey pod.label ns) := by
    have hexact := @Tracks.exact_iff _ _ h order ns ns _ (fun pod => pod.ns = ns)
      fun _ _ => mem_index_namespace hns
    rw [lookupPodsByNamespace, hexact]
    by_cases hfield : ns = podNamespace
    · refine iff_of_true (fun podID pod hpod => ?_) (Or.inl hfield)
      simp [hfield, podNamespace, podKeySelectorKey]
    · simp only [hfield, false_and, false_or]
      exact forall_congr' fun podID => forall_congr' fun pod =>
        forall_congr' fun _ => iff_comm
  refine ⟨fun hall => hnamespace.mp hall.byNamespace, fun hcond => ?_⟩
  refine ⟨hnamespace.mpr hcond, ?_, ?_, ?_, ?_⟩
  · exact (h.exact_iff fun _ _ => mem_keyIndex).mpr fun _ _ _ => Iff.rfl
  · refine (h.exact_iff fun _ _ => mem_labelIndex).mpr fun podID pod hpod => ?_
    exact exists_label_iff (registered_valid hcalls hpod).2 hvalue
  · refine (h.exact_iff fun _ _ => mem_nsKeyIndex).mpr fun podID pod hpod => ?_
    exact exists_nsKey_iff (registered_valid hcalls hpod).1 hns
  · refine (h.exact_iff fun _ _ => mem_nsLabelIndex).mpr fun podID pod hpod => ?_
    obtain ⟨hpodNs, hlabels⟩ := registered_valid hcalls hpod
    exact exists_nsLabel_iff hpodNs hns hlabels hvalue

def databasePod : Pod :=
  ⟨"pod1", "default", [⟨"app/role", "db"⟩], "10.1.1.2"⟩

def databaseCalls : List IndexCall :=
  [.registerPod .insertion "default/pod1" databasePod]

def fieldPod : Pod :=
  ⟨"pod2", podNamespace, [⟨"app/role", "db"⟩], "10.1.1.3"⟩

def fieldCalls : List IndexCall :=
  databaseCalls ++ [.registerPod .insertion "podNamespace/pod2" fieldPod,
    .registerPod .insertion "other/pod3" ⟨"pod3", "other", [], "10.1.1.4"⟩,
    .unregisterPod "other/pod3"]

theorem registered_fieldCalls {podID : String} {pod : Pod}
    (h : registered fieldCalls podID = some pod) :
    pod = databasePod ∨ pod = fieldPod := by
  simp only [fieldCalls, databaseCalls, registered, List.cons_append,
    List.nil_append, List.foldl_cons, List.foldl_nil, Function.update_apply]
    at h
  split_ifs at h
  · exact Or.inr (Option.some.inj h).symm
  · exact Or.inl (Option.some.inj h).symm

/-- The pod is found by the name of the field, and no pod is left to be found
in the namespace of the third one. -/
theorem lookups_exact_iff_fieldCalls :
    lookupPodsByNamespace .sorted (run fieldCalls) podNamespace =
        ["podNamespace/pod2"] ∧
      LookupsExact .sorted fieldCalls podNamespace "app/role" "db" ∧
      LookupsExact .sorted fieldCalls "other" "app/role" "db" := by
  have hvalid : ∀ call ∈ fieldCalls, call.Valid := by
    intro call hcall
    fin_cases hcall <;> trivial
  refine ⟨by decide +kernel,
    (lookups_exact_iff hvalid (by decide) (by decide)).mpr (Or.inl rfl),
    (lookups_exact_iff hvalid (by decide) (by decide)).mpr (Or.inr ?_)⟩
  intro podID pod hpod
  rcases registered_fieldCalls hpod with rfl | rfl <;> decide

/-- The registered pod is not found by its namespace. -/
theorem not_exact_of_registered :
    lookupPodsByNamespace .sorted (run databaseCalls) "default" = [] ∧
      ¬ LookupsExact .sorted databaseCalls "default" "app/role" "db" := by
  have hnone : lookupPodsByNamespace .sorted (run databaseCalls) "default" =
      [] := by decide +kernel
  refine ⟨hnone, fun hall => ?_⟩
  have hmem := (hall.byNamespace.mem_iff "default/pod1").mpr
    ⟨databasePod, rfl, rfl⟩
  rw [hnone] at hmem
  cases hmem

end ContivVPP.PodIndex
