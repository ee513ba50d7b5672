import Mathlib.Data.Finset.Sort
import Mathlib.Data.List.AList
import Mathlib.Tactic

/-!
# Maps with an unspecified iteration order

A Go map is an association list without duplicate keys.  A `range` loop visits
its entries in an order that the language leaves open; a `RangeOrder` is one
way to choose it.
-/

namespace ContivVPP.GoMap

/-- A choice of the order in which a loop visits the elements of a
collection. -/
structure RangeOrder (α : Type*) where
  order : List α → List α
  perm : ∀ xs, (order xs).Perm xs

namespace RangeOrder

variable {α : Type*}

def insertion : RangeOrder α := ⟨id, fun _ => .refl _⟩

def reversed : RangeOrder α := ⟨List.reverse, List.reverse_perm⟩

@[simp] theorem mem_order (o : RangeOrder α) {xs : List α} {x : α} :
    x ∈ o.order xs ↔ x ∈ xs :=
  (o.perm xs).mem_iff

def startingWith [DecidableEq α] (x : α) : RangeOrder α where
  order xs := if x ∈ xs then x :: xs.erase x else xs
  perm xs := by
    split_ifs with hx
    · exact (List.perm_cons_erase hx).symm
    · exact .refl xs

end RangeOrder

variable {κ β : Type*}

def pairs (m : AList fun _ : κ => β) : List (κ × β) :=
  m.entries.map fun e => (e.1, e.2)

/-- The entries of the map in the order of the loop. -/
def range (o : RangeOrder (κ × β)) (m : AList fun _ : κ => β) : List (κ × β) :=
  o.order (pairs m)

theorem pairs_keys (m : AList fun _ : κ => β) :
    (pairs m).map Prod.fst = m.keys := by
  simp [pairs, AList.keys, List.keys]

theorem range_keys_nodup (o : RangeOrder (κ × β))
    (m : AList fun _ : κ => β) : ((range o m).map Prod.fst).Nodup := by
  have hkeys : ((pairs m).map Prod.fst).Nodup := by
    rw [pairs_keys]
    exact m.keys_nodup
  exact ((o.perm _).map Prod.fst).nodup_iff.mpr hkeys

theorem mem_range [DecidableEq κ] {o : RangeOrder (κ × β)}
    {m : AList fun _ : κ => β} {k : κ} {v : β} :
    (k, v) ∈ range o m ↔ m.lookup k = some v := by
  rw [range, RangeOrder.mem_order, pairs, List.mem_map]
  constructor
  · intro h
    obtain ⟨⟨k', v'⟩, hmem, heq⟩ := h
    simp only [Prod.mk.injEq] at heq
    obtain ⟨rfl, rfl⟩ := heq
    exact AList.mem_lookup_iff.mpr hmem
  · intro h
    exact ⟨⟨k, v⟩, AList.mem_lookup_iff.mp h, rfl⟩

theorem range_startingWith [DecidableEq κ] [DecidableEq β]
    {m : AList fun _ : κ => β} {k : κ} {v : β} (h : m.lookup k = some v) :
    ∃ rest, range (.startingWith (k, v)) m = (k, v) :: rest := by
  have hmem : (k, v) ∈ pairs m := mem_range (o := .insertion).mpr h
  rw [range, RangeOrder.startingWith]
  exact ⟨_, if_pos hmem⟩

section Lookup

variable [DecidableEq κ] {m : AList fun _ : κ => β} {k k' : κ} {v v' : β}

theorem lookup_insert_eq_some (h : (m.insert k v).lookup k' = some v') :
    k' = k ∧ v' = v ∨ k' ≠ k ∧ m.lookup k' = some v' := by
  by_cases hk : k' = k
  · subst hk
    rw [AList.lookup_insert, Option.some.injEq] at h
    exact Or.inl ⟨rfl, h.symm⟩
  · rw [AList.lookup_insert_ne hk] at h
    exact Or.inr ⟨hk, h⟩

theorem lookup_erase_eq_some (h : (m.erase k).lookup k' = some v) :
    k' ≠ k ∧ m.lookup k' = some v := by
  by_cases hk : k' = k
  · subst hk
    rw [AList.lookup_erase] at h
    cases h
  · rw [AList.lookup_erase_ne hk] at h
    exact ⟨hk, h⟩

end Lookup

/-! ## Sets -/

/-- A choice of the order in which a loop visits the elements of a set. -/
structure SetOrder (α : Type*) where
  order : Finset α → List α
  nodup : ∀ s, (order s).Nodup
  mem_order : ∀ s x, x ∈ order s ↔ x ∈ s

namespace SetOrder

variable {α : Type*}

def sorted [LinearOrder α] : SetOrder α where
  order s := s.sort (· ≤ ·)
  nodup s := s.sort_nodup _
  mem_order _ _ := Finset.mem_sort _

@[simp] theorem toFinset_order [DecidableEq α] (o : SetOrder α)
    (s : Finset α) : (o.order s).toFinset = s := by
  ext x
  rw [List.mem_toFinset, o.mem_order]

end SetOrder

/-! ## Sequences of assignments -/

section Assign

variable [DecidableEq κ] {ops : List (κ × β)} {m : κ → β} {k : κ}

def assignAll (ops : List (κ × β)) (m : κ → β) : κ → β :=
  ops.foldl (fun m op => Function.update m op.1 op.2) m

theorem assignAll_of_notMem (h : ∀ op ∈ ops, op.1 ≠ k) :
    assignAll ops m k = m k := by
  induction ops generalizing m with
  | nil => rfl
  | cons op ops ih =>
      have hne : k ≠ op.1 := (h op List.mem_cons_self).symm
      change assignAll ops (Function.update m op.1 op.2) k = m k
      rw [ih fun op' hop' => h op' (List.mem_cons_of_mem op hop'),
        Function.update_of_ne hne]

theorem assignAll_of_mem (hnodup : (ops.map Prod.fst).Nodup) {v : β}
    (h : (k, v) ∈ ops) : assignAll ops m k = v := by
  induction ops generalizing m with
  | nil => simp at h
  | cons op ops ih =>
      rw [List.map_cons, List.nodup_cons] at hnodup
      change assignAll ops (Function.update m op.1 op.2) k = v
      rcases List.mem_cons.mp h with heq | hmem
      · rw [assignAll_of_notMem, ← heq, Function.update_self]
        intro op' hop' hkey
        apply hnodup.1
        rw [← heq, ← hkey]
        exact List.mem_map.mpr ⟨op', hop', rfl⟩
      · exact ih hnodup.2 hmem

theorem mem_of_assignAll (h : ∃ op ∈ ops, op.1 = k) :
    (k, assignAll ops m k) ∈ ops := by
  induction ops generalizing m with
  | nil => simp at h
  | cons op ops ih =>
      change (k, assignAll ops (Function.update m op.1 op.2) k) ∈ op :: ops
      by_cases hrest : ∃ op' ∈ ops, op'.1 = k
      · exact List.mem_cons_of_mem op (ih hrest)
      · have hop : op.1 = k := by
          rw [List.exists_mem_cons_iff] at h
          exact h.resolve_right hrest
        rw [assignAll_of_notMem fun op' hop' hkey => hrest ⟨op', hop', hkey⟩,
          ← hop, Function.update_self]
        exact List.mem_cons_self

end Assign

/-! ## Loops that assign to the keys they visit -/

section Modify

variable {γ : Type*} [DecidableEq κ] {f : κ × γ → Option β → β}
  {entries : List (κ × γ)} {m : AList fun _ : κ => β} {k : κ}

def modifyAll (f : κ × γ → Option β → β) (entries : List (κ × γ))
    (m : AList fun _ : κ => β) : AList fun _ : κ => β :=
  entries.foldl (fun m e => m.insert e.1 (f e (m.lookup e.1))) m

theorem lookup_modifyAll_of_notMem (h : ∀ e ∈ entries, e.1 ≠ k) :
    (modifyAll f entries m).lookup k = m.lookup k := by
  induction entries generalizing m with
  | nil => rfl
  | cons e entries ih =>
      have hne : k ≠ e.1 := (h e List.mem_cons_self).symm
      change (modifyAll f entries (m.insert e.1 _)).lookup k = m.lookup k
      rw [ih fun e' he' => h e' (List.mem_cons_of_mem e he'),
        AList.lookup_insert_ne hne]

theorem lookup_modifyAll_of_mem (hnodup : (entries.map Prod.fst).Nodup)
    {v : γ} (h : (k, v) ∈ entries) :
    (modifyAll f entries m).lookup k = some (f (k, v) (m.lookup k)) := by
  induction entries generalizing m with
  | nil => simp at h
  | cons e entries ih =>
      rw [List.map_cons, List.nodup_cons] at hnodup
      change (modifyAll f entries (m.insert e.1 _)).lookup k = _
      rcases List.mem_cons.mp h with heq | hmem
      · subst heq
        rw [lookup_modifyAll_of_notMem, AList.lookup_insert]
        intro e he hkey
        exact hnodup.1 (List.mem_map.mpr ⟨e, he, hkey⟩)
      · have hne : k ≠ e.1 := fun heq =>
          hnodup.1 (List.mem_map.mpr ⟨(k, v), hmem, heq⟩)
        rw [ih hnodup.2 hmem, AList.lookup_insert_ne hne]

end Modify

end ContivVPP.GoMap
