import ContivVPP.RuleLists

/-!
# Transactions of the rule cache

A transaction collects the lists it changes in collections of its own, one for
each direction.  A list of the cache is copied there when one of its
interfaces is updated.  Commit replays the changes on the cache.

The invariant of a transaction relates the two collections of a direction: the
collection of the transaction has the lists of all updated interfaces as they
will be, and agrees with the cache about the other interfaces of these lists.
-/

namespace ContivVPP.RuleCache

open Renderer GoMap Ownership

inductive TrafficDirection where
  | ingress
  | egress
  deriving DecidableEq

def TrafficDirection.string : TrafficDirection → String
  | .ingress => "ingress"
  | .egress => "egress"

structure SuffixSource where
  next : Finset String → String
  fresh : ∀ used, next used ∉ used

-- What the language or the random source leaves open in one call.
structure Choices where
  order : SetOrder String
  suffixes : SuffixSource

def generateListID (direction : TrafficDirection) (suffixes : SuffixSource)
    (allocated : Finset String) : String × Finset String :=
  let suffix := suffixes.next allocated
  (direction.string ++ "-" ++ suffix, insert suffix allocated)

variable {π : Type*}

/-- What `updateInterface` changes: the IDs in use, the lists, and the
collection of the transaction. -/
structure UpdateState (π : Type*) where
  allocated : Finset String
  heap : Heap π
  head : ContivRuleLists

namespace UpdateState

def insertNew (o : SetOrder String) (list : ContivRuleList π)
    (s : UpdateState π) : UpdateState π :=
  let (r, heap) := s.heap.alloc list
  let (_, heap, head) := ContivRuleLists.insert o r (heap, s.head)
  { s with heap := heap, head := head }

def copyOrig (o : SetOrder String) (base : ContivRuleLists)
    (ifName : String) (s : UpdateState π) : UpdateState π :=
  match base.lookupByInterface ifName with
  | some orig =>
      match s.head.lookupByID (s.heap.lists orig).id with
      | some _ => s
      | none => s.insertNew o (s.heap.lists orig)
  | none => s

end UpdateState

def updateInterface (c : Choices) (direction : TrafficDirection)
    (base : ContivRuleLists) (ifName : String) (rules : Rules)
    (s : UpdateState π) : UpdateState π :=
  let s := s.copyOrig c.order base ifName
  match s.head.lookupByRules s.heap rules with
  | some ruleList =>
      let (heap, head) :=
        ContivRuleLists.assignInterface ruleList ifName (s.heap, s.head)
      { s with heap := heap, head := head }
  | none =>
      match base.lookupByRules s.heap rules with
      | some ruleList =>
          let list := s.heap.lists ruleList
          if ifName ∈ list.interfaces then s
          else
            s.insertNew c.order
              { list with interfaces := insert ifName list.interfaces }
      | none =>
          let (id, allocated) :=
            generateListID direction c.suffixes s.allocated
          { s with allocated := allocated }.insertNew c.order
            ⟨id, rules, {ifName}, none⟩

/-! ## Changes and commit -/

structure TxnChange where
  list : Ref
  previousInterfaces : InterfaceSet

def getChange (h : Heap π) (base : ContivRuleLists) (ruleList : Ref) :
    Option TxnChange :=
  match base.lookupByID (h.lists ruleList).id with
  | none =>
      if (h.lists ruleList).interfaces = ∅ then none
      else some ⟨ruleList, ∅⟩
  | some orig =>
      if (h.lists ruleList).interfaces = (h.lists orig).interfaces then none
      else some ⟨ruleList, (h.lists orig).interfaces⟩

/-- `getChanges`; a transaction removes no lists, so none of its slots is
nil. -/
def getChanges (h : Heap π) (head base : ContivRuleLists) : List TxnChange :=
  head.refs.filterMap (getChange h base)

def unassignOthers (orig ruleList : Ref) (ifNames : List String)
    (s : Heap π × ContivRuleLists) : Heap π × ContivRuleLists :=
  ifNames.foldl (fun s iface =>
    if iface ∈ (s.1.lists ruleList).interfaces then s
    else ContivRuleLists.unassignInterface (some orig) iface s) s

def assignMissing (orig : Ref) (ifNames : List String)
    (s : Heap π × ContivRuleLists) : Heap π × ContivRuleLists :=
  ifNames.foldl (fun s iface =>
    if iface ∈ (s.1.lists orig).interfaces then s
    else ContivRuleLists.assignInterface orig iface s) s

def reassign (o : SetOrder String) (orig ruleList : Ref)
    (s : Heap π × ContivRuleLists) : Heap π × ContivRuleLists :=
  let s := unassignOthers orig ruleList (o.order (s.1.lists orig).interfaces) s
  let s := assignMissing orig (o.order (s.1.lists ruleList).interfaces) s
  (s.1.setPriv orig (s.1.lists ruleList).priv, s.2)

def commitList (o : SetOrder String) (s : Heap π × ContivRuleLists)
    (ruleList : Ref) : Heap π × ContivRuleLists :=
  match s.2.lookupByID (s.1.lists ruleList).id with
  | some orig =>
      if (s.1.lists ruleList).interfaces = ∅ then
        (ContivRuleLists.remove (some ruleList) s).2
      else if (s.1.lists ruleList).interfaces = (s.1.lists orig).interfaces
      then s
      else reassign o orig ruleList s
  | none =>
      if (s.1.lists ruleList).interfaces = ∅ then s
      else (ContivRuleLists.insert o ruleList s).2

def commit (o : SetOrder String) (head : ContivRuleLists)
    (s : Heap π × ContivRuleLists) : Heap π × ContivRuleLists :=
  head.refs.foldl (commitList o) s

namespace WF

variable {h : Heap π} {base : ContivRuleLists} {orig r : Ref}

theorem unassignOthers_eq (hwf : WF h base) (horig : orig ∈ base.refs)
    (hr : r ∉ base.refs) {xs : List String} (hnodup : xs.Nodup)
    (hxs : ∀ x ∈ xs, x ∈ (h.lists orig).interfaces) :
    unassignOthers orig r xs (h, base) =
      (h.give base.refs orig ((h.lists orig).interfaces \
          (xs.toFinset \ (h.lists r).interfaces)),
        base.give orig ((h.lists orig).interfaces \
          (xs.toFinset \ (h.lists r).interfaces))) := by
  have hne : r ≠ orig := fun heq => hr (heq ▸ horig)
  induction xs generalizing h base with
  | nil =>
      have hown := hwf.give_own horig
      simp [unassignOthers, hown.1, hown.2]
  | cons x xs ih =>
      rw [List.nodup_cons] at hnodup
      have hrest : ∀ y ∈ xs, y ∈ (h.lists orig).interfaces :=
        fun y hy => hxs y (List.mem_cons_of_mem x hy)
      by_cases hx : x ∈ (h.lists r).interfaces
      · have hskip : unassignOthers orig r (x :: xs) (h, base) =
            unassignOthers orig r xs (h, base) := by
          simp [unassignOthers, hx]
        rw [hskip, ih hwf horig hr hnodup.2 hrest, List.toFinset_cons,
          Finset.insert_sdiff_of_mem _ hx]
      · have hxorig := hxs x List.mem_cons_self
        have hstep : unassignOthers orig r (x :: xs) (h, base) =
            unassignOthers orig r xs
              (h.give base.refs orig ((h.lists orig).interfaces.erase x),
                base.give orig ((h.lists orig).interfaces.erase x)) := by
          rw [← hwf.unassignInterface_some_eq horig hxorig]
          simp [unassignOthers, hx]
        have hlist : (h.give base.refs orig
            ((h.lists orig).interfaces.erase x)).lists r = h.lists r :=
          Heap.give_of_notMem hne hr
        have hset : (h.lists orig).interfaces.erase x \
            (xs.toFinset \ (h.lists r).interfaces) =
            (h.lists orig).interfaces \
              ((x :: xs).toFinset \ (h.lists r).interfaces) := by
          ext y
          simp only [Finset.mem_sdiff, Finset.mem_erase, List.toFinset_cons,
            Finset.mem_insert, List.mem_toFinset]
          by_cases hy : y = x
          · simp [hy, hx]
          · simp [hy]
        have hgive := hwf.give_give horig (s :=
          (h.lists orig).interfaces.erase x) (t := (h.lists orig).interfaces \
            ((x :: xs).toFinset \ (h.lists r).interfaces))
          fun y hy => Or.inr (Finset.mem_of_mem_erase hy)
        rw [hstep, ih (hwf.give horig _) horig hr hnodup.2]
        · rw [hlist, Heap.give_self, hset]
          exact Prod.ext hgive.1 hgive.2
        · intro y hy
          rw [Heap.give_self]
          refine Finset.mem_erase.mpr ⟨?_, hrest y hy⟩
          exact fun heq => hnodup.1 (heq ▸ hy)

theorem assignMissing_eq (hwf : WF h base) (horig : orig ∈ base.refs)
    (xs : List String) :
    assignMissing orig xs (h, base) =
      (h.give base.refs orig ((h.lists orig).interfaces ∪ xs.toFinset),
        base.give orig ((h.lists orig).interfaces ∪ xs.toFinset)) := by
  induction xs generalizing h base with
  | nil =>
      have hown := hwf.give_own horig
      simp [assignMissing, hown.1, hown.2]
  | cons x xs ih =>
      by_cases hx : x ∈ (h.lists orig).interfaces
      · have hskip : assignMissing orig (x :: xs) (h, base) =
            assignMissing orig xs (h, base) := by
          simp [assignMissing, hx]
        rw [hskip, ih hwf horig, List.toFinset_cons, Finset.union_insert,
          Finset.insert_eq_of_mem (Finset.mem_union_left _ hx)]
      · have hstep : assignMissing orig (x :: xs) (h, base) =
            assignMissing orig xs
              (h.give base.refs orig (insert x (h.lists orig).interfaces),
                base.give orig (insert x (h.lists orig).interfaces)) := by
          rw [← hwf.assignInterface_eq horig]
          simp [assignMissing, hx]
        have hset : insert x (h.lists orig).interfaces ∪ xs.toFinset =
            (h.lists orig).interfaces ∪ (x :: xs).toFinset := by
          rw [List.toFinset_cons, Finset.insert_union, Finset.union_insert]
        have hgive := hwf.give_give horig (s :=
          insert x (h.lists orig).interfaces) (t :=
            (h.lists orig).interfaces ∪ (x :: xs).toFinset)
          fun y hy => Or.inl (by rw [← hset]; exact Finset.mem_union_left _ hy)
        rw [hstep, ih (hwf.give horig _) horig, Heap.give_self, hset]
        exact Prod.ext hgive.1 hgive.2

theorem reassign_eq (hwf : WF h base) (o : SetOrder String)
    (horig : orig ∈ base.refs) (hr : r ∉ base.refs) :
    reassign o orig r (h, base) =
      ((h.give base.refs orig (h.lists r).interfaces).setPriv orig
          (h.lists r).priv,
        base.give orig (h.lists r).interfaces) := by
  have hne : r ≠ orig := fun heq => hr (heq ▸ horig)
  have hinter : (h.lists orig).interfaces \ ((h.lists orig).interfaces \
      (h.lists r).interfaces) =
      (h.lists orig).interfaces ∩ (h.lists r).interfaces := by
    ext y
    simp only [Finset.mem_sdiff, Finset.mem_inter]
    tauto
  have hunassign := hwf.unassignOthers_eq horig hr
    (o.nodup (h.lists orig).interfaces) fun x => (o.mem_order _ x).mp
  rw [o.toFinset_order, hinter] at hunassign
  have hassign := (hwf.give horig
    ((h.lists orig).interfaces ∩ (h.lists r).interfaces)).assignMissing_eq
    horig (o.order (h.lists r).interfaces)
  have hunion : (h.lists orig).interfaces ∩ (h.lists r).interfaces ∪
      (h.lists r).interfaces = (h.lists r).interfaces :=
    Finset.union_eq_right.mpr Finset.inter_subset_right
  have hgive := hwf.give_give horig (s :=
    (h.lists orig).interfaces ∩ (h.lists r).interfaces)
    (t := (h.lists r).interfaces)
    fun y hy => Or.inl (Finset.mem_of_mem_inter_right hy)
  rw [o.toFinset_order, Heap.give_self, hunion, ContivRuleLists.refs_give, hgive.1,
    hgive.2] at hassign
  simp only [reassign, hunassign, Heap.give_of_notMem hne hr, hassign]

end WF

/-! ## What commit does -/

def target (h : Heap π) (base : ContivRuleLists) (r : Ref) : Ref :=
  (base.byID (h.lists r).id).getD r

def claims (h : Heap π) (base : ContivRuleLists) (todo : List Ref) :
    List (Ref × InterfaceSet) :=
  (todo.filter fun r => (h.lists r).interfaces ≠ ∅).map fun r =>
    (target h base r, (h.lists r).interfaces)

theorem id_target {h : Heap π} {base : ContivRuleLists} (hwf : WF h base)
    (r : Ref) : (h.lists (target h base r)).id = (h.lists r).id := by
  unfold target
  cases hid : base.byID (h.lists r).id with
  | none => rfl
  | some orig => exact ((hwf.byID_iff _ _).mp hid).2

/-- A list that is not in the cache can be committed: if there is one with its
ID, it has the same rules, and no other does. -/
structure Committable (h : Heap π) (base : ContivRuleLists) (r : Ref) : Prop where
  notMem : r ∉ base.refs
  allocated : r < h.next
  id_iff : ∀ b ∈ base.refs, (h.lists b).id = (h.lists r).id ↔
    (h.lists b).rules = (h.lists r).rules

/-- The state after the lists in `todo` have been committed. -/
structure Committed (h h' : Heap π) (base base' : ContivRuleLists)
    (todo : List Ref) : Prop where
  wf : WF h' base'
  next : h'.next = h.next
  id : ∀ r, (h'.lists r).id = (h.lists r).id
  rules : ∀ r, (h'.lists r).rules = (h.lists r).rules
  outside : ∀ r, r ∉ base'.refs → h'.lists r = h.lists r
  refs_iff : ∀ r, r ∈ base'.refs ↔ r ∈ base.refs ∨
    (r ∈ todo ∧ base.byID (h.lists r).id = none ∧ (h.lists r).interfaces ≠ ∅)
  owner : base'.byInterface = claimAll (claims h base todo) base.byInterface
  priv : ∀ r ∈ todo, (h.lists r).interfaces ≠ ∅ →
    (h'.lists (target h base r)).priv = (h.lists r).priv ∨
      ((h.lists (target h base r)).interfaces ≠ ∅ ∧
        (h'.lists (target h base r)).priv = (h.lists (target h base r)).priv)
  others : ∀ b, (∀ r ∈ todo, (h.lists r).interfaces ≠ ∅ → target h base r ≠ b) →
    (h'.lists b).priv = (h.lists b).priv ∧
      (h'.lists b).interfaces ⊆ (h.lists b).interfaces

section Commit

variable {h : Heap π} {base : ContivRuleLists} {r : Ref}

theorem Committed.refl (hwf : WF h base) (hempty : (h.lists r).interfaces = ∅) :
    Committed h h base base [r] where
  wf := hwf
  next := rfl
  id _ := rfl
  rules _ := rfl
  outside _ _ := rfl
  refs_iff r' := by
    constructor
    · exact Or.inl
    · intro hr'
      rcases hr' with hmem | ⟨hmem, _, hne⟩
      · exact hmem
      · rw [List.mem_singleton.mp hmem] at hne
        exact absurd hempty hne
  owner := by simp [claims, hempty, claimAll]
  priv r' hr' hne := by
    rw [List.mem_singleton.mp hr'] at hne
    exact absurd hempty hne
  others _ _ := ⟨rfl, subset_rfl⟩

theorem remove_eq_self (hwf : WF h base) (hr : r ∉ base.refs) :
    (ContivRuleLists.remove (some r) (h, base)).2 = (h, base) := by
  have hnone : base.ruleLists.slots.idxOf? (some r) = none := by
    obtain ⟨_, spare, hslots⟩ := hwf.holds
    rw [List.idxOf?_eq_none_iff, hslots]
    simp [hr]
  simp [ContivRuleLists.remove, hnone]

theorem committed_give (hwf : WF h base) {orig : Ref} (horig : orig ∈ base.refs)
    (hid : base.byID (h.lists r).id = some orig)
    (hne : (h.lists r).interfaces ≠ ∅) (priv : Option π)
    (hpriv : priv = (h.lists r).priv ∨ ((h.lists orig).interfaces ≠ ∅ ∧
      priv = (h.lists orig).priv)) :
    Committed h ((h.give base.refs orig (h.lists r).interfaces).setPriv orig priv)
      base (base.give orig (h.lists r).interfaces) [r] := by
  have htarget : target h base r = orig := by simp [target, hid]
  constructor
  · exact (hwf.give horig _).congr le_rfl fun r' _ => by simp
  · rfl
  · simp
  · simp
  · intro r' hr'
    rw [ContivRuleLists.refs_give] at hr'
    have hne : r' ≠ orig := fun heq => hr' (heq ▸ horig)
    rw [Heap.setPriv_of_ne hne, Heap.give_of_notMem hne hr']
  · intro r'
    constructor
    · exact Or.inl
    · intro hr'
      rcases hr' with hmem | ⟨hmem, hnone, _⟩
      · exact hmem
      · rw [List.mem_singleton.mp hmem, hid] at hnone
        simp at hnone
  · simp [claims, hne, claimAll, htarget, ContivRuleLists.give]
  · intro r' hr' _
    rw [List.mem_singleton.mp hr', htarget, Heap.setPriv_self]
    exact hpriv
  · intro b hb
    have hneb : b ≠ orig := by
      rw [← htarget]
      exact (hb r (List.mem_singleton_self r) hne).symm
    rw [Heap.setPriv_of_ne hneb, Heap.give_of_ne hneb]
    split
    · exact ⟨rfl, Finset.sdiff_subset⟩
    · exact ⟨rfl, subset_rfl⟩

theorem committed_insert (hwf : WF h base) (o : SetOrder String)
    (hr : Committable h base r) (hid : base.byID (h.lists r).id = none)
    (hne : (h.lists r).interfaces ≠ ∅) :
    Committed h (ContivRuleLists.insert o r (h, base)).2.1 base
      (ContivRuleLists.insert o r (h, base)).2.2 [r] := by
  have hrules : ∀ r' ∈ base.refs, (h.lists r').rules ≠ (h.lists r).rules := by
    intro r' hr' heq
    exact hwf.lookupByID_eq_none_iff.mp hid r' hr' ((hr.id_iff r' hr').mpr heq)
  obtain ⟨base', hinsert, hwf', hrefs, howner⟩ :=
    hwf.insert_eq o hr.allocated hid hrules
  have htarget : target h base r = r := by simp [target, hid]
  have hself : (h.give base.refs r (h.lists r).interfaces).lists r =
      h.lists r := by
    simp
  rw [hinsert]
  constructor
  · exact hwf'
  · rfl
  · simp
  · simp
  · intro r' hr'
    rw [hrefs, not_or] at hr'
    exact Heap.give_of_notMem hr'.1 hr'.2
  · intro r'
    rw [hrefs, List.mem_singleton]
    constructor
    · intro hr'
      rcases hr' with heq | hmem
      · exact Or.inr ⟨heq, heq ▸ hid, heq ▸ hne⟩
      · exact Or.inl hmem
    · intro hr'
      rcases hr' with hmem | hnew
      · exact Or.inr hmem
      · exact Or.inl hnew.1
  · simp [claims, hne, claimAll, htarget, howner]
  · intro r' hr' _
    rw [List.mem_singleton.mp hr', htarget, hself]
    exact Or.inl rfl
  · intro b hb
    have hneb : b ≠ r := by
      rw [← htarget]
      exact (hb r (List.mem_singleton_self r) hne).symm
    rw [Heap.give_of_ne hneb]
    split
    · exact ⟨rfl, Finset.sdiff_subset⟩
    · exact ⟨rfl, subset_rfl⟩

theorem committed_commitList (hwf : WF h base) (o : SetOrder String)
    (hr : Committable h base r) :
    Committed h (commitList o (h, base) r).1 base
      (commitList o (h, base) r).2 [r] := by
  unfold commitList ContivRuleLists.lookupByID
  cases hid : base.byID (h.lists r).id with
  | none =>
      by_cases hempty : (h.lists r).interfaces = ∅
      · simp only [hempty, if_true]
        exact .refl hwf hempty
      · simp only [hempty, if_false]
        exact committed_insert hwf o hr hid hempty
  | some orig =>
      have horig := ((hwf.byID_iff _ _).mp hid).1
      by_cases hempty : (h.lists r).interfaces = ∅
      · simp only [hempty, if_true, remove_eq_self hwf hr.notMem]
        exact .refl hwf hempty
      · by_cases hequal : (h.lists r).interfaces = (h.lists orig).interfaces
        · have hown := hwf.give_own horig
          have hcommit := committed_give hwf horig hid hempty
            (h.lists orig).priv (Or.inr ⟨hequal ▸ hempty, rfl⟩)
          rw [hequal, hown.1, hown.2] at hcommit
          have hpriv : h.setPriv orig (h.lists orig).priv = h := by
            simp [Heap.setPriv, Heap.set]
          rw [hpriv] at hcommit
          simp only [if_neg hempty, if_pos hequal]
          exact hcommit
        · simp only [hempty, hequal, if_false, hwf.reassign_eq o horig hr.notMem]
          exact committed_give hwf horig hid hempty _ (Or.inl rfl)

theorem Committed.todo_eq {h' : Heap π} {base' : ContivRuleLists} {r' : Ref}
    (hwf : WF h base) (hstep : Committed h h' base base' [r])
    (hr' : Committable h base r') (hid : (h.lists r').id ≠ (h.lists r).id) :
    r' ∉ base'.refs ∧ h'.lists r' = h.lists r' ∧
      base'.byID (h.lists r').id = base.byID (h.lists r').id := by
  have hnotMem : r' ∉ base'.refs := by
    rw [hstep.refs_iff, not_or]
    refine ⟨hr'.notMem, ?_⟩
    intro hnew
    rw [List.mem_singleton.mp hnew.1] at hid
    exact hid rfl
  refine ⟨hnotMem, hstep.outside r' hnotMem, ?_⟩
  ext b
  rw [hstep.wf.byID_iff, hwf.byID_iff, hstep.refs_iff, hstep.id, List.mem_singleton]
  constructor
  · intro hb
    refine ⟨hb.1.resolve_right ?_, hb.2⟩
    intro hnew
    rw [hnew.1] at hb
    exact hid hb.2.symm
  · exact fun hb => ⟨Or.inl hb.1, hb.2⟩

variable {h₁ : Heap π} {base₁ : ContivRuleLists}

theorem Committed.target_eq (hwf : WF h base)
    (hfirst : Committed h h₁ base base₁ [r]) {r' : Ref}
    (hr' : Committable h base r') (hid : (h.lists r').id ≠ (h.lists r).id) :
    target h₁ base₁ r' = target h base r' := by
  obtain ⟨_, hlist, hbyID⟩ := hfirst.todo_eq hwf hr' hid
  rw [target, target, hlist, hbyID]

theorem Committed.claims_cons {rs : List Ref} (hwf : WF h base)
    (hfirst : Committed h h₁ base base₁ [r])
    (hids : ∀ r' ∈ rs, (h.lists r').id ≠ (h.lists r).id)
    (hrs : ∀ r' ∈ rs, Committable h base r') :
    claims h base (r :: rs) = claims h base [r] ++ claims h₁ base₁ rs := by
  have hlist : ∀ r' ∈ rs, h₁.lists r' = h.lists r' := fun r' hr' =>
    (hfirst.todo_eq hwf (hrs r' hr') (hids r' hr')).2.1
  have hfilter : rs.filter (fun r' => (h₁.lists r').interfaces ≠ ∅) =
      rs.filter fun r' => (h.lists r').interfaces ≠ ∅ := by
    refine List.filter_congr fun r' hr' => ?_
    rw [hlist r' hr']
  rw [claims, claims, claims, hfilter, ← List.singleton_append,
    List.filter_append, List.map_append]
  congr 1
  refine List.map_congr_left fun r' hr' => ?_
  have hmem := List.mem_of_mem_filter hr'
  rw [hfirst.target_eq hwf (hrs r' hmem) (hids r' hmem), hlist r' hmem]

theorem target_ne_of_id_ne (hwf : WF h base) {r r' : Ref}
    (hid : (h.lists r').id ≠ (h.lists r).id) :
    target h base r' ≠ target h base r := by
  intro heq
  apply hid
  rw [← id_target hwf r', heq, id_target hwf r]

theorem Committed.cons {h₂ : Heap π} {base₂ : ContivRuleLists} {rs : List Ref}
    (hwf : WF h base) (hfirst : Committed h h₁ base base₁ [r])
    (hrest : Committed h₁ h₂ base₁ base₂ rs)
    (hids : ∀ r' ∈ rs, (h.lists r').id ≠ (h.lists r).id)
    (hrs : ∀ r' ∈ rs, Committable h base r') :
    Committed h h₂ base base₂ (r :: rs) := by
  have htodo := fun r' hr' =>
    hfirst.todo_eq hwf (hrs r' hr') (hids r' hr')
  have htarget := fun r' hr' =>
    hfirst.target_eq hwf (hrs r' hr') (hids r' hr')
  have htargets := fun r' hr' => target_ne_of_id_ne hwf (hids r' hr')
  constructor
  · exact hrest.wf
  · rw [hrest.next, hfirst.next]
  · intro r'
    rw [hrest.id, hfirst.id]
  · intro r'
    rw [hrest.rules, hfirst.rules]
  · intro r' hr'
    rw [hrest.outside r' hr', hfirst.outside]
    intro hmem
    exact hr' ((hrest.refs_iff r').mpr (Or.inl hmem))
  · intro r'
    rw [hrest.refs_iff, hfirst.refs_iff, List.mem_singleton, List.mem_cons]
    constructor
    · intro hmem
      rcases hmem with (hold | ⟨heq, hnew⟩) | ⟨hr', hnew⟩
      · exact Or.inl hold
      · exact Or.inr ⟨Or.inl heq, hnew⟩
      · obtain ⟨_, hlist, hbyID⟩ := htodo r' hr'
        rw [hlist, hbyID] at hnew
        exact Or.inr ⟨Or.inr hr', hnew⟩
    · intro hmem
      rcases hmem with hold | ⟨heq | hr', hnew⟩
      · exact Or.inl (Or.inl hold)
      · exact Or.inl (Or.inr ⟨heq, hnew⟩)
      · obtain ⟨_, hlist, hbyID⟩ := htodo r' hr'
        rw [← hbyID, ← hlist] at hnew
        exact Or.inr ⟨hr', hnew⟩
  · rw [hrest.owner, hfirst.owner, hfirst.claims_cons hwf hids hrs, claimAll,
      claimAll, claimAll, List.foldl_append]
  · intro r' hr' hne
    rcases List.mem_cons.mp hr' with heq | hmem
    · rw [heq] at hne ⊢
      have hkept := (hrest.others (target h base r) fun r₂ hr₂ _ => by
        rw [htarget r₂ hr₂]
        exact htargets r₂ hr₂).1
      rw [hkept]
      exact hfirst.priv r (List.mem_singleton_self r) hne
    · have hlist := (htodo r' hmem).2.1
      have hpriv := hrest.priv r' hmem (by rwa [hlist])
      have hbefore := hfirst.others (target h base r') fun r₁ hr₁ _ => by
        rw [List.mem_singleton.mp hr₁]
        exact (htargets r' hmem).symm
      rw [htarget r' hmem, hlist, hbefore.1] at hpriv
      rcases hpriv with hpriv | ⟨hnonempty, hpriv⟩
      · exact Or.inl hpriv
      · refine Or.inr ⟨?_, hpriv⟩
        intro hempty
        rw [hempty, Finset.subset_empty] at hbefore
        exact hnonempty hbefore.2
  · intro b hb
    have hbefore := hfirst.others b fun r₁ hr₁ => by
      rw [List.mem_singleton.mp hr₁]
      exact hb r List.mem_cons_self
    have hafter := hrest.others b fun r₂ hr₂ => by
      rw [htarget r₂ hr₂, (htodo r₂ hr₂).2.1]
      exact hb r₂ (List.mem_cons_of_mem r hr₂)
    exact ⟨hafter.1.trans hbefore.1, hafter.2.trans hbefore.2⟩

theorem committed_foldl (hwf : WF h base) (o : SetOrder String)
    {todo : List Ref} (hlists : ∀ r ∈ todo, Committable h base r)
    (hids : todo.Pairwise fun r r' => (h.lists r').id ≠ (h.lists r).id)
    (hrules : todo.Pairwise fun r r' =>
      (h.lists r').rules ≠ (h.lists r).rules) :
    Committed h (todo.foldl (commitList o) (h, base)).1 base
      (todo.foldl (commitList o) (h, base)).2 todo := by
  induction todo generalizing h base with
  | nil =>
      refine ⟨hwf, rfl, fun _ => rfl, fun _ => rfl, fun _ _ => rfl, ?_, rfl,
        ?_, fun _ _ => ⟨rfl, subset_rfl⟩⟩
      · simp
      · simp
  | cons r todo ih =>
      rw [List.pairwise_cons] at hids hrules
      have hmem : ∀ r' ∈ todo, r' ∈ r :: todo :=
        fun r' hr' => List.mem_cons_of_mem r hr'
      have hstep := committed_commitList hwf o (hlists r List.mem_cons_self)
      have htodo := fun r' hr' =>
        hstep.todo_eq hwf (hlists r' (hmem r' hr')) (hids.1 r' hr')
      have hlists' : ∀ r' ∈ todo, Committable (commitList o (h, base) r).1
            (commitList o (h, base) r).2 r' := by
        intro r' hr'
        have hr := hlists r' (hmem r' hr')
        refine ⟨(htodo r' hr').1, hstep.next ▸ hr.allocated, ?_⟩
        intro b hb
        rw [hstep.id, hstep.id, hstep.rules, hstep.rules]
        rcases (hstep.refs_iff b).mp hb with hold | ⟨hnew, _⟩
        · exact hr.id_iff b hold
        · rw [List.mem_singleton.mp hnew]
          exact iff_of_false (hids.1 r' hr').symm (hrules.1 r' hr').symm
      have hrest := ih hstep.wf hlists' (by simpa only [hstep.id] using hids.2)
        (by simpa only [hstep.rules] using hrules.2)
      exact hstep.cons hwf hrest hids.1 fun r' hr' => hlists r' (hmem r' hr')

end Commit

end ContivVPP.RuleCache
