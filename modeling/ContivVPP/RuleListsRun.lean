import Mathlib.Data.String.Basic
import ContivVPP.RuleLists

/-!
# Runs of operations on a collection of rule lists

Any operations may follow each other, on lists that the caller makes.  What a
collection says about its lists stays right throughout: the order of the
slots, both indexes, and the answers of lookups and insertions.
-/

namespace ContivVPP.RuleCache

open Renderer GoMap

variable {π : Type*}

namespace ContivRuleLists

-- In each round a list is removed or passed by, so that a round for each
-- list is enough.
def removeByPredicateLoop (predicate : Ref → Bool) :
    ℕ → ℕ → ℕ → Heap π × ContivRuleLists → ℕ × Heap π × ContivRuleLists
  | 0, _, count, s => (count, s)
  | fuel + 1, listIdx, count, s =>
      if listIdx < s.2.ruleLists.numItems then
        if ((s.2.ruleLists.get? listIdx).map predicate).getD false then
          removeByPredicateLoop predicate fuel listIdx (count + 1)
            (removeByIdx listIdx s).2
        else removeByPredicateLoop predicate fuel (listIdx + 1) count s
      else (count, s)

/-- `RemoveByPredicate`, with the number of removed lists. -/
def removeByPredicate (predicate : Ref → Bool)
    (s : Heap π × ContivRuleLists) : ℕ × Heap π × ContivRuleLists :=
  removeByPredicateLoop predicate s.2.ruleLists.numItems 0 0 s

end ContivRuleLists

def Heap.store (h : Heap π) (r : Ref) (list : ContivRuleList π) : Heap π :=
  ⟨max h.next (r + 1), Function.update h.lists r list⟩

inductive Call (π : Type*) where
  | store (ruleList : Ref) (list : ContivRuleList π)
  | insert (o : SetOrder String) (ruleList : Ref)
  | remove (ruleList : Option Ref)
  | removeByIdx (idx : ℤ)
  | removeByPredicate (predicate : Heap π → Ref → Bool)
  | assignInterface (ruleList : Ref) (ifName : String)
  | unassignInterface (ruleList : Option Ref) (ifName : String)

-- A negative index makes `RemoveByIdx` panic before anything has changed.
def Call.exec (s : Heap π × ContivRuleLists) : Call π → Heap π × ContivRuleLists
  | .store r list => (s.1.store r list, s.2)
  | .insert o r => (ContivRuleLists.insert o r s).2
  | .remove r => (ContivRuleLists.remove r s).2
  | .removeByIdx (.ofNat idx) => (ContivRuleLists.removeByIdx idx s).2
  | .removeByIdx (.negSucc _) => s
  | .removeByPredicate p => (ContivRuleLists.removeByPredicate (p s.1) s).2
  | .assignInterface r x => ContivRuleLists.assignInterface r x s
  | .unassignInterface r x => ContivRuleLists.unassignInterface r x s

/-- What the callers promise: the IDs of the lists are unique, interfaces are
assigned to lists of the collection, and its lists are not changed
otherwise. -/
def Call.Allowed (s : Heap π × ContivRuleLists) : Call π → Prop
  | .store r _ => r ∉ s.2.refs
  | .insert _ r => r < s.1.next ∧
      ∀ r' ∈ s.2.refs, (s.1.lists r').id = (s.1.lists r).id → r' = r
  | .assignInterface r _ => r ∈ s.2.refs
  | .unassignInterface (some r) _ => r ∈ s.2.refs
  | _ => True

def execAll (s : Heap π × ContivRuleLists) (calls : List (Call π)) :
    Heap π × ContivRuleLists :=
  calls.foldl Call.exec s

/-- Every call keeps the promises when it is made. -/
def AllAllowed (s : Heap π × ContivRuleLists) : List (Call π) → Prop
  | [] => True
  | call :: calls => call.Allowed s ∧ AllAllowed (call.exec s) calls

instance (s : Heap π × ContivRuleLists) (call : Call π) :
    Decidable (call.Allowed s) := by
  cases call with
  | store r list => exact inferInstanceAs (Decidable (r ∉ s.2.refs))
  | insert o r => exact inferInstanceAs (Decidable (_ ∧ _))
  | assignInterface r x => exact inferInstanceAs (Decidable (r ∈ s.2.refs))
  | unassignInterface r x =>
      cases r with
      | none => exact .isTrue trivial
      | some r => exact inferInstanceAs (Decidable (r ∈ s.2.refs))
  | remove r => exact .isTrue trivial
  | removeByIdx idx => exact .isTrue trivial
  | removeByPredicate p => exact .isTrue trivial

instance decidableAllAllowed (s : Heap π × ContivRuleLists)
    (calls : List (Call π)) : Decidable (AllAllowed s calls) :=
  match calls with
  | [] => .isTrue trivial
  | call :: calls =>
      have := decidableAllAllowed (call.exec s) calls
      inferInstanceAs (Decidable (call.Allowed s ∧ _))

/-! ## What each operation does -/

namespace WF

variable {h : Heap π} {crls : ContivRuleLists} {r : Ref} {x : String}

section

variable (hwf : WF h crls)
include hwf

theorem store (hr : r ∉ crls.refs) (list : ContivRuleList π) :
    WF (h.store r list) crls := by
  refine hwf.congr (Nat.le_max_left _ _) ?_
  intro r' hr'
  have hne : r' ≠ r := fun heq => hr (heq ▸ hr')
  simp [Heap.store, hne]

theorem insert_of_stored (o : SetOrder String) {r' : Ref}
    (hr' : r' ∈ crls.refs) (hrules : (h.lists r').rules = (h.lists r).rules) :
    ContivRuleLists.insert o r (h, crls) = (false, h, crls) := by
  have heq : h.compare r r' = .eq := compareRuleLists_eq_iff.mpr hrules.symm
  rcases SlotArray.insert_spec hwf.holds hwf.sorted r with
    ⟨_, hinsert⟩ | ⟨hnew, _⟩
  · simp [ContivRuleLists.insert, hinsert]
  · exact absurd heq (hnew r' hr')

theorem removeByIdx_of_le {idx : ℕ} (hidx : crls.refs.length ≤ idx) :
    ContivRuleLists.removeByIdx idx (h, crls) = (false, h, crls) := by
  have hget : crls.ruleLists.get? idx = none := by
    rw [hwf.holds.get?, List.getElem?_eq_none hidx]
  simp [ContivRuleLists.removeByIdx, hget]

theorem mem_eraseIdx_iff {idx : ℕ} (hidx : idx < crls.refs.length) {r : Ref} :
    r ∈ crls.refs.eraseIdx idx ↔ r ∈ crls.refs ∧ r ≠ crls.refs[idx] := by
  rw [← hwf.nodup.erase_getElem idx hidx, hwf.nodup.mem_erase_iff, and_comm]

theorem removeByIdx_eq {idx : ℕ} (hidx : idx < crls.refs.length) :
    ∃ crls', ContivRuleLists.removeByIdx idx (h, crls) = (true, h, crls') ∧
      WF h crls' ∧ crls'.refs = crls.refs.eraseIdx idx := by
  have hget : crls.ruleLists.get? idx = some crls.refs[idx] := by
    rw [hwf.holds.get?, List.getElem?_eq_getElem hidx]
  have hnum : idx < crls.ruleLists.numItems := hwf.holds.1 ▸ hidx
  have hholds := hwf.holds.removeAt hidx
  rw [← List.eraseIdx_eq_take_drop_succ] at hholds
  have hremove : ContivRuleLists.removeByIdx idx (h, crls) = (true, h,
      ⟨crls.ruleLists.removeAt idx,
        Function.update crls.byID (h.lists crls.refs[idx]).id none,
        fun x => if x ∈ (h.lists crls.refs[idx]).interfaces then none
          else crls.byInterface x⟩) := by
    simp only [ContivRuleLists.removeByIdx, hget, if_pos hnum]
  refine ⟨_, hremove, ?_, hholds.items_eq⟩
  have hrefs : ∀ byID byInterface, ContivRuleLists.refs
      ⟨crls.ruleLists.removeAt idx, byID, byInterface⟩ =
      crls.refs.eraseIdx idx := fun _ _ => hholds.items_eq
  constructor
  · rw [hrefs]
    exact hholds
  · rw [hrefs]
    exact hwf.sorted.sublist (List.eraseIdx_sublist _ _)
  · intro id r
    rw [hrefs, hwf.mem_eraseIdx_iff hidx]
    change Function.update crls.byID _ none id = some r ↔ _
    by_cases heq : id = (h.lists crls.refs[idx]).id
    · rw [heq, Function.update_self]
      constructor
      · intro hnone
        simp at hnone
      · rintro ⟨⟨hr, hne⟩, hid⟩
        exact absurd (hwf.eq_of_id hr (List.getElem_mem hidx) hid) hne
    · rw [Function.update_of_ne heq, hwf.byID_iff]
      constructor
      · rintro ⟨hr, hid⟩
        refine ⟨⟨hr, ?_⟩, hid⟩
        intro hself
        exact heq (by rw [← hid, hself])
      · exact fun hr => ⟨hr.1.1, hr.2⟩
  · intro x r
    rw [hrefs, hwf.mem_eraseIdx_iff hidx]
    change (if x ∈ _ then none else crls.byInterface x) = some r ↔ _
    by_cases hx : x ∈ (h.lists crls.refs[idx]).interfaces
    · rw [if_pos hx]
      constructor
      · intro hnone
        simp at hnone
      · rintro ⟨⟨hr, hne⟩, hxr⟩
        exact absurd (hwf.eq_of_interface hr (List.getElem_mem hidx) hxr hx) hne
    · rw [if_neg hx, hwf.byInterface_iff]
      constructor
      · rintro ⟨hr, hxr⟩
        refine ⟨⟨hr, ?_⟩, hxr⟩
        intro hself
        exact hx (hself ▸ hxr)
      · exact fun hr => ⟨hr.1.1, hr.2⟩
  · intro r hr
    rw [hrefs, hwf.mem_eraseIdx_iff hidx] at hr
    exact hwf.allocated r hr.1

theorem removeByIdx (idx : ℕ) :
    WF (ContivRuleLists.removeByIdx idx (h, crls)).2.1
      (ContivRuleLists.removeByIdx idx (h, crls)).2.2 := by
  rcases Nat.lt_or_ge idx crls.refs.length with hidx | hidx
  · obtain ⟨crls', hremove, hwf', _⟩ := hwf.removeByIdx_eq hidx
    rw [hremove]
    exact hwf'
  · rw [hwf.removeByIdx_of_le hidx]
    exact hwf

theorem remove (ruleList : Option Ref) :
    WF (ContivRuleLists.remove ruleList (h, crls)).2.1
      (ContivRuleLists.remove ruleList (h, crls)).2.2 := by
  unfold ContivRuleLists.remove
  split
  next idx _ => exact hwf.removeByIdx idx
  next => exact hwf

end

/-- What is before the index stays; of the rest, the lists with the predicate
are removed and counted. -/
def RemovedFrom (h : Heap π) (crls : ContivRuleLists)
    (predicate : Ref → Bool) (listIdx count : ℕ)
    (result : ℕ × Heap π × ContivRuleLists) : Prop :=
  ∃ crls', result =
      (count + (crls.refs.drop listIdx).countP predicate, h, crls') ∧
    WF h crls' ∧ crls'.refs = crls.refs.take listIdx ++
      (crls.refs.drop listIdx).filter fun r => !predicate r

theorem removedFrom_of_le (hwf : WF h crls) (predicate : Ref → Bool)
    {listIdx : ℕ} (count : ℕ) (hle : crls.refs.length ≤ listIdx) :
    RemovedFrom h crls predicate listIdx count (count, h, crls) := by
  refine ⟨crls, ?_, hwf, ?_⟩
  · simp [List.drop_eq_nil_of_le hle]
  · simp [List.drop_eq_nil_of_le hle, List.take_of_length_le hle]

theorem removeByPredicateLoop (predicate : Ref → Bool)
    (fuel listIdx count : ℕ) (hwf : WF h crls)
    (hfuel : crls.refs.length ≤ fuel + listIdx) :
    RemovedFrom h crls predicate listIdx count
      (ContivRuleLists.removeByPredicateLoop predicate fuel listIdx count
        (h, crls)) := by
  induction fuel generalizing listIdx count crls with
  | zero => exact hwf.removedFrom_of_le predicate count (by omega)
  | succ fuel ih =>
      rw [ContivRuleLists.removeByPredicateLoop]
      rcases Nat.lt_or_ge listIdx crls.refs.length with hidx | hidx
      · have hdrop := List.drop_eq_getElem_cons hidx
        have hget : crls.ruleLists.get? listIdx = some crls.refs[listIdx] := by
          rw [hwf.holds.get?, List.getElem?_eq_getElem hidx]
        rw [if_pos (hwf.holds.1 ▸ hidx), hget]
        by_cases hp : predicate crls.refs[listIdx] = true
        · obtain ⟨crls', hremove, hwf', hrefs⟩ := hwf.removeByIdx_eq hidx
          have hlen : (crls.refs.take listIdx).length = listIdx := by
            rw [List.length_take]
            omega
          rw [List.eraseIdx_eq_take_drop_succ] at hrefs
          obtain ⟨crls'', hloop, hwf'', hrefs'⟩ := ih listIdx (count + 1) hwf' (by
              rw [hrefs, List.length_append, List.length_take, List.length_drop]
              omega)
          rw [hrefs, List.drop_left' hlen] at hloop hrefs'
          rw [List.take_left' hlen] at hrefs'
          refine ⟨crls'', ?_, hwf'', ?_⟩
          · rw [Option.map_some, Option.getD_some, if_pos hp, hremove, hloop,
              hdrop, List.countP_cons_of_pos hp]
            congr 1
            omega
          · rw [hrefs', hdrop, List.filter_cons_of_neg (by simp [hp])]
        · obtain ⟨crls', hloop, hwf', hrefs⟩ := ih (listIdx + 1) count hwf
            (by omega)
          refine ⟨crls', ?_, hwf', ?_⟩
          · rw [Option.map_some, Option.getD_some, if_neg hp, hloop, hdrop,
              List.countP_cons_of_neg hp]
          · rw [hrefs, hdrop, List.filter_cons_of_pos (by simp [hp]),
              List.take_succ_eq_append_getElem hidx, List.append_assoc]
            rfl
      · rw [if_neg (by rw [hwf.holds.1]; omega)]
        exact hwf.removedFrom_of_le predicate count hidx

theorem removeByPredicate_eq (hwf : WF h crls) (predicate : Ref → Bool) :
    ∃ crls', ContivRuleLists.removeByPredicate predicate (h, crls) =
        (crls.refs.countP predicate, h, crls') ∧
      WF h crls' ∧ crls'.refs = crls.refs.filter fun r => !predicate r := by
  have hloop := hwf.removeByPredicateLoop predicate
    crls.ruleLists.numItems 0 0 hwf.holds.1.ge
  simpa [RemovedFrom, ContivRuleLists.removeByPredicate] using hloop

theorem unassignInterface_some (hwf : WF h crls) (hr : r ∈ crls.refs)
    (x : String) :
    WF (ContivRuleLists.unassignInterface (some r) x (h, crls)).1
      (ContivRuleLists.unassignInterface (some r) x (h, crls)).2 := by
  by_cases hx : x ∈ (h.lists r).interfaces
  · rw [hwf.unassignInterface_some_eq hr hx]
    exact hwf.give hr _
  · have hsame : h.removeInterface r x = h := by
      simp [Heap.removeInterface, Heap.setInterfaces, Heap.set,
        Finset.erase_eq_of_notMem hx]
    have howner : ¬ crls.byInterface x = some r := by
      rw [hwf.byInterface_iff]
      exact fun hown => hx hown.2
    simp only [ContivRuleLists.unassignInterface, hsame, reduceCtorEq,
      Option.some.injEq, false_or]
    split
    next list hlist =>
      have hne : ¬ r = list := by
        rintro rfl
        exact howner hlist
      rw [if_neg hne]
      exact hwf
    next => exact hwf

theorem unassignInterface_none (hwf : WF h crls) (x : String) :
    WF (ContivRuleLists.unassignInterface none x (h, crls)).1
      (ContivRuleLists.unassignInterface none x (h, crls)).2 := by
  cases howner : crls.byInterface x with
  | none =>
      simp only [ContivRuleLists.unassignInterface, howner]
      exact hwf
  | some list =>
      -- Taking the interface from its owner is the same.
      have htwice : (h.removeInterface list x).removeInterface list x =
          h.removeInterface list x := by
        simp [Heap.removeInterface, Heap.setInterfaces, Heap.set]
      have heq : ContivRuleLists.unassignInterface none x (h, crls) =
          ContivRuleLists.unassignInterface (some list) x (h, crls) := by
        simp [ContivRuleLists.unassignInterface, howner, htwice]
      rw [heq]
      exact hwf.unassignInterface_some
        ((hwf.byInterface_iff x list).mp howner).1 x

theorem exec (hwf : WF h crls) {call : Call π}
    (hallowed : call.Allowed (h, crls)) :
    WF (call.exec (h, crls)).1 (call.exec (h, crls)).2 := by
  cases call with
  | store r list => exact hwf.store hallowed list
  | insert o r =>
      obtain ⟨halloc, hunique⟩ := hallowed
      by_cases hstored : ∃ r' ∈ crls.refs, (h.lists r').rules = (h.lists r).rules
      · obtain ⟨r', hr', hrules⟩ := hstored
        simp only [Call.exec, hwf.insert_of_stored o hr' hrules]
        exact hwf
      · have hnew : ∀ r' ∈ crls.refs, (h.lists r').rules ≠ (h.lists r).rules := by
          intro r' hr' hrules
          exact hstored ⟨r', hr', hrules⟩
        have hid : crls.byID (h.lists r).id = none := by
          rw [hwf.lookupByID_eq_none_iff]
          intro r' hr' hid
          exact hnew r' hr' (by rw [hunique r' hr' hid])
        obtain ⟨crls', hinsert, hwf', _⟩ := hwf.insert_eq o halloc hid hnew
        simp only [Call.exec, hinsert]
        exact hwf'
  | remove ruleList => exact hwf.remove ruleList
  | removeByIdx idx =>
      cases idx with
      | ofNat idx => exact hwf.removeByIdx idx
      | negSucc idx => exact hwf
  | removeByPredicate predicate =>
      obtain ⟨crls', hremove, hwf', _⟩ :=
        hwf.removeByPredicate_eq (predicate h)
      simp only [Call.exec, hremove]
      exact hwf'
  | assignInterface r x =>
      simp only [Call.exec, hwf.assignInterface_eq hallowed]
      exact hwf.give hallowed _
  | unassignInterface ruleList x =>
      cases ruleList with
      | none => exact hwf.unassignInterface_none x
      | some r => exact hwf.unassignInterface_some hallowed x

theorem execAll {s : Heap π × ContivRuleLists} (hwf : WF s.1 s.2)
    {calls : List (Call π)} (hallowed : AllAllowed s calls) :
    WF (execAll s calls).1 (execAll s calls).2 := by
  induction calls generalizing s with
  | nil => exact hwf
  | cons call calls ih => exact ih (hwf.exec hallowed.1) hallowed.2

end WF

/-! ## What a collection says about its lists -/

def ContivRuleLists.Stored (crls : ContivRuleLists) (r : Ref) : Prop :=
  some r ∈ crls.ruleLists.slots.take crls.ruleLists.numItems

/-- The slots in use hold lists in a strictly increasing order, the others are
nil, and the indexes, lookups and insertions agree with the slots. -/
structure ListsConsistent (h : Heap π) (crls : ContivRuleLists) : Prop where
  enough : crls.ruleLists.numItems ≤ crls.ruleLists.slots.length
  used : ∀ slot ∈ crls.ruleLists.slots.take crls.ruleLists.numItems, slot ≠ none
  increasing : ∀ (i j : ℕ) (r r' : Ref), i < j → j < crls.ruleLists.numItems →
    crls.ruleLists.slots[i]? = some (some r) →
    crls.ruleLists.slots[j]? = some (some r') →
    compareRuleLists (h.lists r).rules (h.lists r').rules = .lt
  spare : ∀ slot ∈ crls.ruleLists.slots.drop crls.ruleLists.numItems, slot = none
  byID : ∀ id r, crls.lookupByID id = some r ↔ crls.Stored r ∧ (h.lists r).id = id
  byInterface : ∀ x r, crls.lookupByInterface x = some r ↔
    crls.Stored r ∧ x ∈ (h.lists r).interfaces
  oneOwner : ∀ x r r', crls.Stored r → crls.Stored r' →
    x ∈ (h.lists r).interfaces → x ∈ (h.lists r').interfaces → r = r'
  byRules : ∀ rules r, crls.lookupByRules h rules = some r ↔
    crls.Stored r ∧ (h.lists r).rules = rules
  insert_iff : ∀ o r, (ContivRuleLists.insert o r (h, crls)).1 = false ↔
    ∃ r', crls.Stored r' ∧ (h.lists r').rules = (h.lists r).rules
  insert_false : ∀ o r, (ContivRuleLists.insert o r (h, crls)).1 = false →
    (ContivRuleLists.insert o r (h, crls)).2 = (h, crls)

namespace WF

variable {h : Heap π} {crls : ContivRuleLists}

theorem take_slots (hwf : WF h crls) :
    crls.ruleLists.slots.take crls.ruleLists.numItems = crls.refs.map some := by
  obtain ⟨hnum, spare, hslots⟩ := hwf.holds
  rw [hnum, hslots, List.take_left' (List.length_map _)]

theorem stored_iff (hwf : WF h crls) {r : Ref} :
    crls.Stored r ↔ r ∈ crls.refs := by
  rw [ContivRuleLists.Stored, hwf.take_slots]
  simp

theorem insert_fst_iff (hwf : WF h crls) (o : SetOrder String) (r : Ref) :
    (ContivRuleLists.insert o r (h, crls)).1 = false ↔
      ∃ r' ∈ crls.refs, (h.lists r').rules = (h.lists r).rules := by
  constructor
  · intro hfalse
    rcases SlotArray.insert_spec hwf.holds hwf.sorted r with
      ⟨⟨r', hr', heq⟩, _⟩ | ⟨_, smaller, bigger, _, hinsert, _⟩
    · exact ⟨r', hr', (compareRuleLists_eq_iff.mp heq).symm⟩
    · simp [ContivRuleLists.insert, hinsert] at hfalse
  · rintro ⟨r', hr', hrules⟩
    rw [hwf.insert_of_stored o hr' hrules]

theorem consistent (hwf : WF h crls) : ListsConsistent h crls where
  enough := by
    obtain ⟨hnum, spare, hslots⟩ := hwf.holds
    rw [hnum, hslots]
    simp
  used slot hslot := by
    rw [hwf.take_slots, List.mem_map] at hslot
    obtain ⟨r, _, rfl⟩ := hslot
    simp
  increasing i j r r' hij hj hi hj' := by
    have hget : ∀ k, k < crls.ruleLists.numItems → ∀ r,
        crls.ruleLists.slots[k]? = some (some r) →
        crls.refs[k]? = some r := by
      intro k hk r hslot
      rw [← List.getElem?_take_of_lt hk, hwf.take_slots,
        List.getElem?_map] at hslot
      simpa using hslot
    have hr := hget i (hij.trans hj) r hi
    have hr' := hget j hj r' hj'
    rw [List.getElem?_eq_some_iff] at hr hr'
    obtain ⟨hilt, rfl⟩ := hr
    obtain ⟨hjlt, rfl⟩ := hr'
    exact List.pairwise_iff_getElem.mp hwf.sorted i j hilt hjlt hij
  spare slot hslot := by
    obtain ⟨hnum, spare, hslots⟩ := hwf.holds
    rw [hnum, hslots, List.drop_left' (List.length_map _)] at hslot
    exact List.eq_of_mem_replicate hslot
  byID id r := by
    rw [hwf.stored_iff]
    exact hwf.byID_iff id r
  byInterface x r := by
    rw [hwf.stored_iff]
    exact hwf.byInterface_iff x r
  oneOwner x r r' hr hr' hx hx' :=
    hwf.eq_of_interface (hwf.stored_iff.mp hr) (hwf.stored_iff.mp hr') hx hx'
  byRules rules r := by
    rw [hwf.stored_iff]
    exact hwf.lookupByRules_eq_some_iff
  insert_iff o r := by
    simp only [hwf.stored_iff]
    exact hwf.insert_fst_iff o r
  insert_false o r hfalse := by
    obtain ⟨r', hr', hrules⟩ := (hwf.insert_fst_iff o r).mp hfalse
    rw [hwf.insert_of_stored o hr' hrules]

end WF

/-- After any allowed calls, everything a collection says is right. -/
theorem consistent_of_allAllowed (h : Heap π) (calls : List (Call π))
    (hallowed : AllAllowed (h, .new) calls) :
    ListsConsistent (execAll (h, .new) calls).1 (execAll (h, .new) calls).2 :=
  ((wf_new h).execAll hallowed).consistent

def denyTCP : ContivRule := ⟨"TCP:NONE", .deny, .any, .any, .tcp, 0, 0⟩

def sharingLists : Heap Unit where
  next := 3
  lists r :=
    if r = 0 then ⟨"ingress-A", some [denyTCP], {"if1"}, none⟩
    else if r = 1 then ⟨"ingress-B", some [], {"if1"}, none⟩
    else ⟨"ingress-C", some [denyTCP], {"if4"}, none⟩

def sharedInterfaceCalls : List (Call Unit) := [.insert .sorted 0,
  .insert .sorted 1,
  .insert .sorted 2,
  .assignInterface 0 "if2",
  .assignInterface 1 "if3",
  .unassignInterface (some 0) "if3",
  .unassignInterface none "if1",
  .store 3 ⟨"ingress-D", none, ∅, none⟩,
  .insert .sorted 3,
  .removeByPredicate fun h r => (h.lists r).interfaces = ∅,
  .removeByIdx (-1),
  .remove none]

/-- The first two lists are left, each with an interface. -/
theorem consistent_of_sharedInterfaceCalls :
    AllAllowed (sharingLists, .new) sharedInterfaceCalls ∧
      (execAll (sharingLists, .new) sharedInterfaceCalls).2.refs = [1, 0] ∧
      (execAll (sharingLists, .new) sharedInterfaceCalls).2.byInterface
        "if3" = some 1 ∧
      (execAll (sharingLists, .new) sharedInterfaceCalls).2.byInterface
        "if2" = some 0 ∧
      ListsConsistent (execAll (sharingLists, .new) sharedInterfaceCalls).1
        (execAll (sharingLists, .new) sharedInterfaceCalls).2 :=
  have hallowed : AllAllowed (sharingLists, .new) sharedInterfaceCalls := by
    decide +kernel
  ⟨hallowed, by decide +kernel, by decide +kernel, by decide +kernel,
    consistent_of_allAllowed _ _ hallowed⟩

end ContivVPP.RuleCache
