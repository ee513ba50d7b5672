import ContivVPP.GoMap

/-!
# Mappings with secondary indexes

A mapping from names to values that keeps, for each field and each value of the
field, the set of names that have it.  What an item is indexed under is stored
with the item, and is removed from the sets when the item is replaced or
deleted.  So the sets are at any time what a search through all items finds.
-/

namespace ContivVPP.NamedMapping

open GoMap

variable {ν φ κ β : Type*}

structure Item (φ κ β : Type*) where
  value : β
  indexed : φ → List κ

/-- The items, and the names for each value of a field.  A set that is not
there is empty. -/
structure Mapping (ν φ κ β : Type*) where
  nameToIdx : AList fun _ : ν => Item φ κ β
  indexes : φ → κ → Finset ν

def Mapping.new : Mapping ν φ κ β := ⟨∅, fun _ _ => ∅⟩

namespace Mapping

variable [DecidableEq ν]

def listNames (order : SetOrder ν) (m : Mapping ν φ κ β) (field : φ)
    (value : κ) : List ν :=
  order.order (m.indexes field value)

def Indexed (m : Mapping ν φ κ β) : Prop :=
  ∀ field value name, name ∈ m.indexes field value ↔
    ∃ item, m.nameToIdx.lookup name = some item ∧ value ∈ item.indexed field

theorem indexed_new : (new : Mapping ν φ κ β).Indexed := by
  intro field value name
  simp [new]

theorem Indexed.mem_listNames {order : SetOrder ν} {m : Mapping ν φ κ β}
    {name : ν} {field : φ} {value : κ} (h : m.Indexed) :
    name ∈ m.listNames order field value ↔
      ∃ item, m.nameToIdx.lookup name = some item ∧
        value ∈ item.indexed field := by
  rw [listNames, order.mem_order, h]

end Mapping

variable [DecidableEq ν] [DecidableEq κ]

def removeIndexes (item : Item φ κ β) (name : ν)
    (indexes : φ → κ → Finset ν) : φ → κ → Finset ν :=
  fun field value =>
    if value ∈ item.indexed field then (indexes field value).erase name
    else indexes field value

def updateIndexes (item : Item φ κ β) (name : ν)
    (indexes : φ → κ → Finset ν) : φ → κ → Finset ν :=
  fun field value =>
    if value ∈ item.indexed field then insert name (indexes field value)
    else indexes field value

namespace Mapping

def put (name : ν) (item : Item φ κ β) (m : Mapping ν φ κ β) : Mapping ν φ κ β :=
  let indexes := match m.nameToIdx.lookup name with
    | some oldItem => removeIndexes oldItem name m.indexes
    | none => m.indexes
  ⟨m.nameToIdx.insert name item, updateIndexes item name indexes⟩

def delete (name : ν) (m : Mapping ν φ κ β) : Mapping ν φ κ β :=
  match m.nameToIdx.lookup name with
  | some item =>
      ⟨m.nameToIdx.erase name, removeIndexes item name m.indexes⟩
  | none => m

variable {m : Mapping ν φ κ β} {name name' : ν} {item : Item φ κ β}
  {field : φ} {value : κ}

theorem Indexed.mem_removeIndexes (h : m.Indexed)
    (hname : m.nameToIdx.lookup name = some item) :
    name' ∈ removeIndexes item name m.indexes field value ↔
      name' ≠ name ∧ name' ∈ m.indexes field value := by
  unfold removeIndexes
  split_ifs with hvalue
  · exact Finset.mem_erase
  · refine ⟨fun hmem => ⟨?_, hmem⟩, And.right⟩
    rintro rfl
    obtain ⟨item', hitem', hmem'⟩ := (h _ _ _).mp hmem
    rw [hname] at hitem'
    cases hitem'
    exact hvalue hmem'

theorem mem_updateIndexes {indexes : φ → κ → Finset ν} :
    name' ∈ updateIndexes item name indexes field value ↔
      name' = name ∧ value ∈ item.indexed field ∨
        name' ∈ indexes field value := by
  unfold updateIndexes
  split_ifs with hvalue
  · simp [hvalue]
  · simp [hvalue]

theorem Indexed.put (h : m.Indexed) : (m.put name item).Indexed := by
  intro field value name'
  have hothers : name' ∈ (match m.nameToIdx.lookup name with
      | some oldItem => removeIndexes oldItem name m.indexes
      | none => m.indexes) field value ↔
        name' ≠ name ∧ name' ∈ m.indexes field value := by
    cases hname : m.nameToIdx.lookup name with
    | some oldItem => exact h.mem_removeIndexes hname
    | none =>
        refine ⟨fun hmem => ⟨?_, hmem⟩, And.right⟩
        rintro rfl
        obtain ⟨item', hitem', _⟩ := (h _ _ _).mp hmem
        rw [hname] at hitem'
        cases hitem'
  change name' ∈ updateIndexes item name _ field value ↔
    ∃ item', (m.nameToIdx.insert name item).lookup name' = some item' ∧
      value ∈ item'.indexed field
  rw [mem_updateIndexes, hothers, h]
  by_cases heq : name' = name
  · subst heq
    simp
  · rw [AList.lookup_insert_ne heq]
    simp [heq]

theorem Indexed.delete (h : m.Indexed) : (m.delete name).Indexed := by
  unfold Mapping.delete
  cases hname : m.nameToIdx.lookup name with
  | none => exact h
  | some item =>
      intro field value name'
      change name' ∈ removeIndexes item name m.indexes field value ↔
        ∃ item', (m.nameToIdx.erase name).lookup name' = some item' ∧
          value ∈ item'.indexed field
      rw [h.mem_removeIndexes hname, h]
      by_cases heq : name' = name
      · subst heq
        simp
      · rw [AList.lookup_erase_ne heq]
        simp [heq]

theorem lookup_delete : (m.delete name).nameToIdx.lookup name' =
    if name' = name then none else m.nameToIdx.lookup name' := by
  unfold Mapping.delete
  cases hname : m.nameToIdx.lookup name with
  | none =>
      split_ifs with heq
      · rw [heq]
        exact hname
      · rfl
  | some item =>
      split_ifs with heq
      · rw [heq]
        exact AList.lookup_erase _ _
      · exact AList.lookup_erase_ne heq

end Mapping

end ContivVPP.NamedMapping
