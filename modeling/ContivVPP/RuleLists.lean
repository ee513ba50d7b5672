import ContivVPP.GoMap
import ContivVPP.Ownership
import ContivVPP.ContivRule
import ContivVPP.SlotArray

/-!
# Collections of rule lists

A rule list is shared by the interfaces with the same rules.  A collection of
lists is sorted by the rules and has two indexes, by ID and by interface.
Lists are objects that the collections of a cache and of its transactions
refer to, and their sets of interfaces change in place; so all operations work
on a heap of lists together with the collection.
-/

namespace ContivVPP.RuleCache

open Renderer GoMap Ownership

abbrev InterfaceSet := Finset String

/-- What a renderer keeps in `Private` is left open. -/
structure ContivRuleList (π : Type*) where
  id : String
  rules : Rules
  interfaces : InterfaceSet
  priv : Option π

abbrev Ref := ℕ

@[ext] structure Heap (π : Type*) where
  next : Ref
  lists : Ref → ContivRuleList π

structure ContivRuleLists where
  ruleLists : SlotArray Ref
  byID : String → Option Ref
  byInterface : String → Option Ref

variable {π : Type*}

namespace Heap

def alloc (h : Heap π) (list : ContivRuleList π) : Ref × Heap π :=
  (h.next, ⟨h.next + 1, Function.update h.lists h.next list⟩)

def set (h : Heap π) (r : Ref) (list : ContivRuleList π) : Heap π :=
  { h with lists := Function.update h.lists r list }

def setInterfaces (h : Heap π) (r : Ref) (set : InterfaceSet) : Heap π :=
  h.set r { h.lists r with interfaces := set }

def addInterface (h : Heap π) (r : Ref) (ifName : String) : Heap π :=
  h.setInterfaces r (insert ifName (h.lists r).interfaces)

def removeInterface (h : Heap π) (r : Ref) (ifName : String) : Heap π :=
  h.setInterfaces r ((h.lists r).interfaces.erase ifName)

def setPriv (h : Heap π) (r : Ref) (priv : Option π) : Heap π :=
  h.set r { h.lists r with priv := priv }

variable {p : Option π}

@[simp] theorem setPriv_self {h : Heap π} {r : Ref} :
    (h.setPriv r p).lists r = { h.lists r with priv := p } := by
  simp [setPriv, set]

theorem setPriv_of_ne {h : Heap π} {r r' : Ref} (hne : r' ≠ r) :
    (h.setPriv r p).lists r' = h.lists r' := by
  simp [setPriv, set, hne]

@[simp] theorem id_setPriv {h : Heap π} {r r' : Ref} :
    ((h.setPriv r p).lists r').id = (h.lists r').id := by
  by_cases heq : r' = r
  · simp [heq]
  · rw [setPriv_of_ne heq]

@[simp] theorem rules_setPriv {h : Heap π} {r r' : Ref} :
    ((h.setPriv r p).lists r').rules = (h.lists r').rules := by
  by_cases heq : r' = r
  · simp [heq]
  · rw [setPriv_of_ne heq]

@[simp] theorem interfaces_setPriv {h : Heap π} {r r' : Ref} :
    ((h.setPriv r p).lists r').interfaces = (h.lists r').interfaces := by
  by_cases heq : r' = r
  · simp [heq]
  · rw [setPriv_of_ne heq]

def compare (h : Heap π) (r r' : Ref) : Ordering :=
  compareRuleLists (h.lists r).rules (h.lists r').rules

end Heap

namespace ContivRuleLists

def new : ContivRuleLists :=
  ⟨SlotArray.empty, fun _ => none, fun _ => none⟩

def refs (crls : ContivRuleLists) : List Ref :=
  crls.ruleLists.items

def lookupByID (crls : ContivRuleLists) (id : String) : Option Ref :=
  crls.byID id

def lookupByRules (h : Heap π) (crls : ContivRuleLists) (rules : Rules) :
    Option Ref :=
  crls.ruleLists.lookup fun r => compareRuleLists rules (h.lists r).rules

def lookupByInterface (crls : ContivRuleLists) (ifName : String) : Option Ref :=
  crls.byInterface ifName

def setOwner (crls : ContivRuleLists) (ifName : String)
    (owner : Option Ref) : ContivRuleLists :=
  { crls with byInterface := Function.update crls.byInterface ifName owner }

def unassignInterface (ruleList : Option Ref) (ifName : String)
    (s : Heap π × ContivRuleLists) : Heap π × ContivRuleLists :=
  let h := match ruleList with
    | some r => s.1.removeInterface r ifName
    | none => s.1
  match s.2.byInterface ifName with
  | some list =>
      if ruleList = none ∨ ruleList = some list then
        (h.removeInterface list ifName, s.2.setOwner ifName none)
      else (h, s.2)
  | none => (h, s.2)

def assignInterface (ruleList : Ref) (ifName : String)
    (s : Heap π × ContivRuleLists) : Heap π × ContivRuleLists :=
  let s := unassignInterface none ifName s
  (s.1.addInterface ruleList ifName, s.2.setOwner ifName (some ruleList))

-- The loop of `Insert` over the interfaces of the new list.
def takeOver (ruleList : Ref) (ifNames : List String)
    (s : Heap π × ContivRuleLists) : Heap π × ContivRuleLists :=
  ifNames.foldl (fun s iface =>
    let s := unassignInterface none iface s
    (s.1, s.2.setOwner iface (some ruleList))) s

/-- `Insert`; the result says whether the list was inserted. -/
def insert (o : SetOrder String) (ruleList : Ref)
    (s : Heap π × ContivRuleLists) : Bool × Heap π × ContivRuleLists :=
  let (inserted, ruleLists) :=
    SlotArray.insert (s.1.compare ruleList) ruleList s.2.ruleLists
  if inserted then
    let list := s.1.lists ruleList
    (true, takeOver ruleList (o.order list.interfaces) (s.1, { s.2 with
        ruleLists := ruleLists
        byID := Function.update s.2.byID list.id (some ruleList) }))
  else (false, s)

def removeByIdx (idx : ℕ) (s : Heap π × ContivRuleLists) :
    Bool × Heap π × ContivRuleLists :=
  match s.2.ruleLists.get? idx with
  | some r =>
      if idx < s.2.ruleLists.numItems then
        (true, s.1,
          { ruleLists := s.2.ruleLists.removeAt idx
            byID := Function.update s.2.byID (s.1.lists r).id none
            byInterface := fun x =>
              if x ∈ (s.1.lists r).interfaces then none
              else s.2.byInterface x })
      else (false, s)
  | none => (false, s)

/-- `Remove`, which looks for the very same object; a nil pointer is found in
a spare slot at most. -/
def remove (ruleList : Option Ref) (s : Heap π × ContivRuleLists) :
    Bool × Heap π × ContivRuleLists :=
  match s.2.ruleLists.slots.idxOf? ruleList with
  | some idx => removeByIdx idx s
  | none => (false, s)

end ContivRuleLists

/-! ## Well-formed collections -/

structure WF (h : Heap π) (crls : ContivRuleLists) : Prop where
  holds : crls.ruleLists.Holds crls.refs
  sorted : SlotArray.StrictlySorted h.compare crls.refs
  byID_iff : ∀ id r, crls.byID id = some r ↔ r ∈ crls.refs ∧ (h.lists r).id = id
  byInterface_iff : ∀ x r, crls.byInterface x = some r ↔
    r ∈ crls.refs ∧ x ∈ (h.lists r).interfaces
  allocated : ∀ r ∈ crls.refs, r < h.next

instance (h : Heap π) : Std.TransCmp h.compare where
  eq_swap := by
    intro a b
    exact @Std.OrientedCmp.eq_swap _ compareRuleLists _ _ _
  isLE_trans := by
    intro a b c
    exact @Std.TransCmp.isLE_trans _ compareRuleLists _ _ _ _

@[simp] theorem refs_new : ContivRuleLists.new.refs = [] := rfl

@[simp] theorem byID_new (id : String) : ContivRuleLists.new.byID id = none := rfl

@[simp] theorem byInterface_new (ifName : String) :
    ContivRuleLists.new.byInterface ifName = none := rfl

theorem wf_new (h : Heap π) : WF h .new where
  holds := SlotArray.holds_empty
  sorted := List.Pairwise.nil
  byID_iff id r := by simp
  byInterface_iff x r := by simp
  allocated r hr := by simp at hr

namespace WF

variable {h : Heap π} {crls : ContivRuleLists}

theorem eq_of_id (hwf : WF h crls) {r r' : Ref} (hr : r ∈ crls.refs)
    (hr' : r' ∈ crls.refs) (hid : (h.lists r).id = (h.lists r').id) :
    r = r' := by
  have hfirst := (hwf.byID_iff _ r).mpr ⟨hr, rfl⟩
  have hsecond := (hwf.byID_iff _ r').mpr ⟨hr', hid.symm⟩
  exact Option.some.inj (hfirst.symm.trans hsecond)

theorem eq_of_interface (hwf : WF h crls) {r r' : Ref} {x : String}
    (hr : r ∈ crls.refs) (hr' : r' ∈ crls.refs)
    (hx : x ∈ (h.lists r).interfaces) (hx' : x ∈ (h.lists r').interfaces) :
    r = r' := by
  have hfirst := (hwf.byInterface_iff x r).mpr ⟨hr, hx⟩
  have hsecond := (hwf.byInterface_iff x r').mpr ⟨hr', hx'⟩
  exact Option.some.inj (hfirst.symm.trans hsecond)

theorem lookupByRules_eq_some_iff (hwf : WF h crls) {rules : Rules}
    {r : Ref} : crls.lookupByRules h rules = some r ↔
      r ∈ crls.refs ∧ (h.lists r).rules = rules := by
  have hprobe : SlotArray.Follows h.compare fun r =>
      compareRuleLists rules (h.lists r).rules :=
    fun _ _ hle hlt => Std.TransCmp.lt_of_isLE_of_lt hle hlt
  rw [ContivRuleLists.lookupByRules,
    SlotArray.lookup_eq_some_iff hwf.holds hwf.sorted hprobe,
    compareRuleLists_eq_iff, eq_comm]

theorem eq_of_rules (hwf : WF h crls) {r r' : Ref} (hr : r ∈ crls.refs)
    (hr' : r' ∈ crls.refs)
    (hrules : (h.lists r).rules = (h.lists r').rules) : r = r' := by
  have hfirst := hwf.lookupByRules_eq_some_iff.mpr ⟨hr, rfl⟩
  have hsecond := hwf.lookupByRules_eq_some_iff.mpr ⟨hr', hrules.symm⟩
  exact Option.some.inj (hfirst.symm.trans hsecond)

theorem lookupByID_eq_none_iff (hwf : WF h crls) {id : String} :
    crls.byID id = none ↔ ∀ r ∈ crls.refs, (h.lists r).id ≠ id := by
  rw [Option.eq_none_iff_forall_ne_some]
  simp only [ne_eq, hwf.byID_iff, not_and]

theorem lookupByRules_eq_none_iff (hwf : WF h crls) {rules : Rules} :
    crls.lookupByRules h rules = none ↔
      ∀ r ∈ crls.refs, (h.lists r).rules ≠ rules := by
  rw [Option.eq_none_iff_forall_ne_some]
  simp only [ne_eq, hwf.lookupByRules_eq_some_iff, not_and]

/-- A collection does not see changes of other lists, or of what a renderer
keeps with its lists. -/
theorem congr {h' : Heap π} (hwf : WF h crls) (hnext : h.next ≤ h'.next)
    (hlists : ∀ r ∈ crls.refs, (h'.lists r).id = (h.lists r).id ∧
      (h'.lists r).rules = (h.lists r).rules ∧
      (h'.lists r).interfaces = (h.lists r).interfaces) : WF h' crls where
  holds := hwf.holds
  sorted := by
    refine hwf.sorted.imp_of_mem ?_
    intro r r' hr hr' hlt
    rwa [Heap.compare, (hlists r hr).2.1, (hlists r' hr').2.1]
  byID_iff id r := by
    rw [hwf.byID_iff]
    exact and_congr_right fun hr => by rw [(hlists r hr).1]
  byInterface_iff x r := by
    rw [hwf.byInterface_iff]
    exact and_congr_right fun hr => by rw [(hlists r hr).2.2]
  allocated r hr := (hwf.allocated r hr).trans_le hnext

theorem nodup (hwf : WF h crls) : crls.refs.Nodup := by
  apply hwf.sorted.imp
  intro a b hlt heq
  rw [heq, @Std.ReflCmp.compare_self _ h.compare] at hlt
  cases hlt

end WF

/-! ## Taking over interfaces -/

namespace Heap

def release (h : Heap π) (refs : List Ref) (set : InterfaceSet) : Heap π :=
  { h with lists := fun r =>
      if r ∈ refs then
        { h.lists r with interfaces := (h.lists r).interfaces \ set }
      else h.lists r }

def give (h : Heap π) (refs : List Ref) (r : Ref) (set : InterfaceSet) : Heap π :=
  (h.release refs set).setInterfaces r set

variable {h : Heap π} {refs : List Ref} {r r' : Ref} {s t : InterfaceSet}

@[simp] theorem release_empty : h.release refs ∅ = h := by
  simp [release]

@[simp] theorem next_give : (h.give refs r s).next = h.next := rfl

@[simp] theorem give_self : (h.give refs r s).lists r =
    { h.lists r with interfaces := s } := by
  by_cases hmem : r ∈ refs <;>
    simp [give, setInterfaces, set, release, hmem]

theorem give_of_ne (hne : r' ≠ r) : (h.give refs r s).lists r' =
    if r' ∈ refs then
      { h.lists r' with interfaces := (h.lists r').interfaces \ s }
    else h.lists r' := by
  simp [give, setInterfaces, set, release, hne]

theorem give_of_notMem (hne : r' ≠ r) (hmem : r' ∉ refs) :
    (h.give refs r s).lists r' = h.lists r' := by
  rw [give_of_ne hne, if_neg hmem]

@[simp] theorem id_give : ((h.give refs r s).lists r').id = (h.lists r').id := by
  by_cases heq : r' = r
  · simp [heq]
  · rw [give_of_ne heq]
    split <;> rfl

@[simp] theorem rules_give : ((h.give refs r s).lists r').rules =
    (h.lists r').rules := by
  by_cases heq : r' = r
  · simp [heq]
  · rw [give_of_ne heq]
    split <;> rfl

@[simp] theorem priv_give : ((h.give refs r s).lists r').priv =
    (h.lists r').priv := by
  by_cases heq : r' = r
  · simp [heq]
  · rw [give_of_ne heq]
    split <;> rfl

theorem mem_interfaces_give {x : String} (hmem : r' ∈ refs) :
    x ∈ ((h.give refs r s).lists r').interfaces ↔ (r' = r ∧ x ∈ s) ∨
        (r' ≠ r ∧ x ∈ (h.lists r').interfaces ∧ x ∉ s) := by
  by_cases heq : r' = r
  · simp [heq]
  · rw [give_of_ne heq, if_pos hmem]
    simp [heq]

@[simp] theorem compare_give : (h.give refs r s).compare = h.compare := by
  funext a b
  simp [Heap.compare]

theorem give_give (hmore : ∀ r' ∈ refs, r' ≠ r → ∀ x ∈ s,
      x ∈ (h.lists r').interfaces → x ∈ t) :
    (h.give refs r s).give refs r t = h.give refs r t := by
  refine Heap.ext rfl (funext fun r' => ?_)
  by_cases heq : r' = r
  · simp [heq]
  · rw [give_of_ne heq, give_of_ne heq, give_of_ne heq]
    split
    next hmem =>
      have hsdiff : ((h.lists r').interfaces \ s) \ t =
          (h.lists r').interfaces \ t := by
        ext x
        have hx := hmore r' hmem heq x
        simp only [Finset.mem_sdiff]
        tauto
      simp [hsdiff]
    next => rfl

theorem give_of_unowned (hself : r ∉ refs) :
    h.give refs r (h.lists r).interfaces =
      h.release refs (h.lists r).interfaces := by
  simp [give, setInterfaces, set, release, hself]

theorem release_release :
    (h.release refs s).release refs t = h.release refs (s ∪ t) := by
  refine Heap.ext rfl (funext fun r => ?_)
  by_cases hr : r ∈ refs
  · simp [release, hr, sdiff_sdiff_left]
  · simp [release, hr]

end Heap

namespace ContivRuleLists

def give (crls : ContivRuleLists) (r : Ref) (set : InterfaceSet) :
    ContivRuleLists :=
  { crls with byInterface := claim r set crls.byInterface }

@[simp] theorem refs_give {crls : ContivRuleLists} {r : Ref}
    {set : InterfaceSet} : (crls.give r set).refs = crls.refs := rfl

@[simp] theorem byID_give {crls : ContivRuleLists} {r : Ref}
    {set : InterfaceSet} : (crls.give r set).byID = crls.byID := rfl

def Owns (h : Heap π) (crls : ContivRuleLists) (refs : List Ref)
    (x : String) : Prop :=
  ∀ r, crls.byInterface x = some r ↔ r ∈ refs ∧ x ∈ (h.lists r).interfaces

variable {h : Heap π} {crls : ContivRuleLists} {refs : List Ref} {x : String}

theorem unassignInterface_none (howns : crls.Owns h refs x) :
    unassignInterface none x (h, crls) =
      (h.release refs {x}, crls.setOwner x none) := by
  unfold unassignInterface
  cases howner : crls.byInterface x with
  | none =>
      have hheap : h.release refs {x} = h := by
        refine Heap.ext rfl (funext fun r => ?_)
        by_cases hr : r ∈ refs
        · have hx : x ∉ (h.lists r).interfaces := by
            intro hx
            rw [(howns r).mpr ⟨hr, hx⟩] at howner
            simp at howner
          simp [Heap.release, hr, Finset.sdiff_singleton_eq_erase,
            Finset.erase_eq_of_notMem hx]
        · simp [Heap.release, hr]
      have hcrls : crls.setOwner x none = crls := by
        simp [setOwner, ← howner]
      rw [hheap, hcrls]
  | some list =>
      obtain ⟨hmem, hx⟩ := (howns list).mp howner
      have hheap : h.removeInterface list x = h.release refs {x} := by
        refine Heap.ext rfl (funext fun r => ?_)
        simp only [Heap.removeInterface, Heap.setInterfaces, Heap.set,
          Heap.release]
        by_cases heq : r = list
        · simp [heq, hmem, Finset.sdiff_singleton_eq_erase]
        · by_cases hr : r ∈ refs
          · have hxr : x ∉ (h.lists r).interfaces := by
              intro hxr
              have hsome := (howns r).mpr ⟨hr, hxr⟩
              rw [howner] at hsome
              exact heq (Option.some.inj hsome).symm
            simp [heq, hr, Finset.sdiff_singleton_eq_erase,
              Finset.erase_eq_of_notMem hxr]
          · simp [heq, hr]
      simp [hheap]

theorem takeOver_eq {r : Ref} {xs : List String} (hnodup : xs.Nodup)
    (howns : ∀ x ∈ xs, crls.Owns h refs x) :
    takeOver r xs (h, crls) = (h.release refs xs.toFinset,
        { crls with byInterface := fun x =>
            if x ∈ xs then some r else crls.byInterface x }) := by
  induction xs generalizing h crls with
  | nil => simp [takeOver]
  | cons x xs ih =>
      rw [List.nodup_cons] at hnodup
      have hstep : takeOver r (x :: xs) (h, crls) =
          takeOver r xs (h.release refs {x}, crls.setOwner x (some r)) := by
        rw [takeOver, List.foldl_cons,
          unassignInterface_none (howns x List.mem_cons_self)]
        simp [takeOver, setOwner]
      have hrest : ∀ y ∈ xs, (crls.setOwner x (some r)).Owns
          (h.release refs {x}) refs y := by
        intro y hy r'
        have hne : y ≠ x := fun heq => hnodup.1 (heq ▸ hy)
        have hown := howns y (List.mem_cons_of_mem x hy) r'
        simp only [setOwner, Function.update_of_ne hne, hown]
        refine and_congr_right fun hr' => ?_
        simp [Heap.release, hr', hne]
      rw [hstep, ih hnodup.2 hrest, Heap.release_release,
        List.toFinset_cons, Finset.insert_eq]
      simp only [setOwner, Prod.mk.injEq, true_and, mk.injEq]
      funext y
      by_cases hy : y ∈ xs
      · simp [hy]
      · by_cases heq : y = x
        · simp [heq]
        · simp [hy, heq]

end ContivRuleLists

namespace WF

variable {h : Heap π} {crls : ContivRuleLists} {r : Ref} {x : String}

section

variable (hwf : WF h crls)
include hwf

theorem give (hr : r ∈ crls.refs) (set : InterfaceSet) :
    WF (h.give crls.refs r set) (crls.give r set) where
  holds := hwf.holds
  sorted := by
    rw [Heap.compare_give]
    exact hwf.sorted
  byID_iff id r' := by
    rw [Heap.id_give]
    exact hwf.byID_iff id r'
  byInterface_iff y r' := by
    change claim r set crls.byInterface y = some r' ↔ r' ∈ crls.refs ∧ _
    rw [claim_eq_some_iff, hwf.byInterface_iff]
    constructor
    · intro hcases
      rcases hcases with ⟨rfl, hy⟩ | ⟨hne, hy, hmem, hyr⟩
      · exact ⟨hr, (Heap.mem_interfaces_give hr).mpr (Or.inl ⟨rfl, hy⟩)⟩
      · exact ⟨hmem, (Heap.mem_interfaces_give hmem).mpr (Or.inr ⟨hne, hyr, hy⟩)⟩
    · intro hcases
      rw [Heap.mem_interfaces_give hcases.1] at hcases
      tauto
  allocated := hwf.allocated

theorem give_own (hr : r ∈ crls.refs) :
    h.give crls.refs r (h.lists r).interfaces = h ∧
      crls.give r (h.lists r).interfaces = crls := by
  constructor
  · refine Heap.ext rfl (funext fun r' => ?_)
    by_cases heq : r' = r
    · simp [heq]
    · rw [Heap.give_of_ne heq]
      by_cases hmem : r' ∈ crls.refs
      · have hdisjoint : Disjoint (h.lists r').interfaces
            (h.lists r).interfaces := by
          rw [Finset.disjoint_left]
          intro y hy hyr
          exact heq (hwf.eq_of_interface hmem hr hy hyr)
        simp [hmem, Finset.sdiff_eq_self_of_disjoint hdisjoint]
      · simp [hmem]
  · have hclaim : claim r (h.lists r).interfaces crls.byInterface =
        crls.byInterface := by
      funext y
      by_cases hy : y ∈ (h.lists r).interfaces
      · rw [claim_of_mem hy, (hwf.byInterface_iff y r).mpr ⟨hr, hy⟩]
      · exact claim_of_notMem hy fun hown =>
          hy ((hwf.byInterface_iff y r).mp hown).2
    rw [ContivRuleLists.give, hclaim]

theorem give_give {s t : InterfaceSet} (hr : r ∈ crls.refs)
    (hmore : ∀ x ∈ s, x ∈ t ∨ x ∈ (h.lists r).interfaces) :
    (h.give crls.refs r s).give crls.refs r t = h.give crls.refs r t ∧
      (crls.give r s).give r t = crls.give r t := by
  constructor
  · refine Heap.give_give fun r' hr' hne x hx hxr' => ?_
    refine (hmore x hx).resolve_right ?_
    intro hxr
    exact hne (hwf.eq_of_interface hr' hr hxr' hxr)
  · rw [ContivRuleLists.give, ContivRuleLists.give, ContivRuleLists.give,
      claim_claim]
    intro x hx
    rcases hmore x hx with ht | hown
    · exact Or.inl ht
    · exact Or.inr ((hwf.byInterface_iff x r).mpr ⟨hr, hown⟩)

theorem owns (x : String) : crls.Owns h crls.refs x :=
  hwf.byInterface_iff x

theorem assignInterface_eq (hr : r ∈ crls.refs) :
    ContivRuleLists.assignInterface r x (h, crls) =
      (h.give crls.refs r (insert x (h.lists r).interfaces),
        crls.give r (insert x (h.lists r).interfaces)) := by
  rw [ContivRuleLists.assignInterface,
    ContivRuleLists.unassignInterface_none (hwf.owns x)]
  refine Prod.ext (Heap.ext rfl (funext fun r' => ?_)) ?_
  · by_cases heq : r' = r
    · have hinsert : insert x ((h.lists r).interfaces \ {x}) =
          insert x (h.lists r).interfaces := by
        ext y
        simp only [Finset.mem_insert, Finset.mem_sdiff, Finset.mem_singleton]
        tauto
      simp [heq, hr, Heap.addInterface, Heap.setInterfaces, Heap.set,
        Heap.release, hinsert]
    · rw [Heap.give_of_ne heq]
      simp only [Heap.addInterface, Heap.setInterfaces, Heap.set,
        Heap.release, Function.update_of_ne heq]
      by_cases hmem : r' ∈ crls.refs
      · have hdisjoint : (h.lists r').interfaces \
            insert x (h.lists r).interfaces =
            (h.lists r').interfaces \ {x} := by
          ext y
          simp only [Finset.mem_sdiff, Finset.mem_insert,
            Finset.mem_singleton, not_or, and_congr_right_iff,
            and_iff_left_iff_imp]
          intro hy _ hyr
          exact heq (hwf.eq_of_interface hmem hr hy hyr)
        simp [hmem, hdisjoint]
      · simp [hmem]
  · simp only [ContivRuleLists.setOwner, ContivRuleLists.give,
      Function.update_idem, ContivRuleLists.mk.injEq, true_and]
    funext y
    by_cases heq : y = x
    · simp [heq, claim]
    · by_cases hy : y ∈ (h.lists r).interfaces
      · rw [Function.update_of_ne heq, claim_of_mem (by simp [hy]),
          hwf.byInterface_iff]
        exact ⟨hr, hy⟩
      · rw [Function.update_of_ne heq, claim_of_notMem (by simp [heq, hy])]
        intro hown
        exact hy ((hwf.byInterface_iff y r).mp hown).2

theorem unassignInterface_some_eq (hr : r ∈ crls.refs)
    (hx : x ∈ (h.lists r).interfaces) :
    ContivRuleLists.unassignInterface (some r) x (h, crls) =
      (h.give crls.refs r ((h.lists r).interfaces.erase x),
        crls.give r ((h.lists r).interfaces.erase x)) := by
  have howner := (hwf.byInterface_iff x r).mpr ⟨hr, hx⟩
  simp only [ContivRuleLists.unassignInterface, howner, reduceCtorEq,
    false_or, if_true]
  refine Prod.ext (Heap.ext rfl (funext fun r' => ?_)) ?_
  · by_cases heq : r' = r
    · simp [heq, Heap.removeInterface, Heap.setInterfaces, Heap.set]
    · rw [Heap.give_of_ne heq]
      simp only [Heap.removeInterface, Heap.setInterfaces, Heap.set,
        Function.update_of_ne heq]
      by_cases hmem : r' ∈ crls.refs
      · have hdisjoint : Disjoint (h.lists r').interfaces
            ((h.lists r).interfaces.erase x) := by
          rw [Finset.disjoint_left]
          intro y hy hyr
          exact heq (hwf.eq_of_interface hmem hr hy (Finset.mem_of_mem_erase hyr))
        simp [hmem, Finset.sdiff_eq_self_of_disjoint hdisjoint]
      · simp [hmem]
  · simp only [ContivRuleLists.setOwner, ContivRuleLists.give,
      ContivRuleLists.mk.injEq, true_and]
    funext y
    by_cases heq : y = x
    · simp [heq, claim, howner]
    · by_cases hy : y ∈ (h.lists r).interfaces
      · rw [Function.update_of_ne heq, claim_of_mem (by simp [heq, hy]),
          hwf.byInterface_iff]
        exact ⟨hr, hy⟩
      · rw [Function.update_of_ne heq, claim_of_notMem (by simp [hy])]
        intro hown
        exact hy ((hwf.byInterface_iff y r).mp hown).2

theorem inserted {smaller bigger : List Ref} (halloc : r < h.next)
    (hid : crls.byID (h.lists r).id = none)
    (hsplit : crls.refs = smaller ++ bigger)
    (hholds : (crls.ruleLists.insertAt smaller.length r).Holds (smaller ++ r ::
      bigger))
    (hsorted : SlotArray.StrictlySorted h.compare (smaller ++ r :: bigger)) :
    WF (h.give crls.refs r (h.lists r).interfaces)
      ⟨crls.ruleLists.insertAt smaller.length r,
        Function.update crls.byID (h.lists r).id (some r),
        claim r (h.lists r).interfaces crls.byInterface⟩ := by
  have hrefs : ∀ byID byInterface, ContivRuleLists.refs
      ⟨crls.ruleLists.insertAt smaller.length r, byID, byInterface⟩ =
      smaller ++ r :: bigger := fun _ _ => hholds.items_eq
  have hmem : ∀ r', r' ∈ smaller ++ r :: bigger ↔ r' = r ∨ r' ∈ crls.refs := by
    intro r'
    simp only [hsplit, List.mem_append, List.mem_cons]
    tauto
  constructor
  · rw [hrefs]
    exact hholds
  · rw [hrefs, Heap.compare_give]
    exact hsorted
  · intro id r'
    rw [hrefs, hmem, Heap.id_give]
    change Function.update crls.byID _ _ id = some r' ↔ _
    by_cases heq : id = (h.lists r).id
    · rw [heq, Function.update_self, Option.some.injEq]
      constructor
      · intro hr'
        exact ⟨Or.inl hr'.symm, by rw [hr']⟩
      · intro hr'
        rcases hr'.1 with hself | hold
        · exact hself.symm
        · rw [(hwf.byID_iff _ r').mpr ⟨hold, hr'.2⟩] at hid
          simp at hid
    · rw [Function.update_of_ne heq, hwf.byID_iff]
      constructor
      · exact fun hr' => ⟨Or.inr hr'.1, hr'.2⟩
      · intro hr'
        refine ⟨hr'.1.resolve_left ?_, hr'.2⟩
        intro hself
        exact heq (by rw [← hr'.2, hself])
  · intro y r'
    rw [hrefs, hmem]
    change claim r _ crls.byInterface y = some r' ↔ _
    rw [claim_eq_some_iff, hwf.byInterface_iff]
    by_cases heq : r' = r
    · simp [heq]
    · simp only [heq, false_and, ne_eq, not_false_eq_true, true_and, false_or]
      constructor
      · intro hy
        exact ⟨hy.2.1, (Heap.mem_interfaces_give hy.2.1).mpr
          (Or.inr ⟨heq, hy.2.2, hy.1⟩)⟩
      · intro hy
        rw [Heap.mem_interfaces_give hy.1] at hy
        tauto
  · intro r' hr'
    rw [hrefs, hmem] at hr'
    rcases hr' with hself | hold
    · rw [hself]
      exact halloc
    · exact hwf.allocated r' hold

theorem insert_eq (o : SetOrder String) (halloc : r < h.next)
    (hid : crls.byID (h.lists r).id = none)
    (hrules : ∀ r' ∈ crls.refs, (h.lists r').rules ≠ (h.lists r).rules) :
    ∃ crls', ContivRuleLists.insert o r (h, crls) =
        (true, h.give crls.refs r (h.lists r).interfaces, crls') ∧
      WF (h.give crls.refs r (h.lists r).interfaces) crls' ∧
      (∀ r', r' ∈ crls'.refs ↔ r' = r ∨ r' ∈ crls.refs) ∧
      crls'.byInterface = claim r (h.lists r).interfaces crls.byInterface := by
  have hnew : r ∉ crls.refs := by
    intro hr
    rw [(hwf.byID_iff _ r).mpr ⟨hr, rfl⟩] at hid
    simp at hid
  rcases SlotArray.insert_spec hwf.holds hwf.sorted r with
    ⟨⟨r', hr', heq⟩, _⟩ | ⟨_, smaller, bigger, hsplit, hinsert, hholds, hsorted⟩
  · exact absurd (compareRuleLists_eq_iff.mp heq).symm (hrules r' hr')
  · have htake := @ContivRuleLists.takeOver_eq π h
      { crls with
        ruleLists := crls.ruleLists.insertAt smaller.length r
        byID := Function.update crls.byID (h.lists r).id (some r) }
      crls.refs r (o.order (h.lists r).interfaces) (o.nodup _)
      fun y _ => hwf.owns y
    rw [o.toFinset_order, ← Heap.give_of_unowned hnew] at htake
    have hunowned : ∀ y, crls.byInterface y ≠ some r :=
      fun y hy => hnew ((hwf.byInterface_iff y r).mp hy).1
    have hclaim : (fun y => if y ∈ o.order (h.lists r).interfaces
        then some r else crls.byInterface y) =
        claim r (h.lists r).interfaces crls.byInterface := by
      funext y
      simp [claim, o.mem_order, hunowned y]
    refine ⟨⟨crls.ruleLists.insertAt smaller.length r,
      Function.update crls.byID (h.lists r).id (some r),
      claim r (h.lists r).interfaces crls.byInterface⟩, ?_, ?_, ?_, rfl⟩
    · simp only [ContivRuleLists.insert, hinsert, if_true]
      rw [htake, hclaim]
    · exact hwf.inserted halloc hid hsplit hholds hsorted
    · intro r'
      rw [ContivRuleLists.refs, hholds.items_eq, hsplit]
      simp only [List.mem_append, List.mem_cons]
      tauto

end

end WF

end ContivVPP.RuleCache
