import ContivVPP.RuleCacheTxn

/-!
# The invariant of a transaction

`Pending` relates the collection of a transaction to the collection of the
cache for one direction, given what has been updated so far.  Every update
preserves it, and commit turns it into the new assignment of interfaces:
updated interfaces get their rules, and all others keep their lists.
-/

namespace ContivVPP.RuleCache

open Renderer GoMap Ownership

variable {π : Type*}

def IDsAllocated (direction : TrafficDirection) (allocated : Finset String)
    (h : Heap π) (crls : ContivRuleLists) : Prop :=
  ∀ r ∈ crls.refs, ∃ suffix ∈ allocated,
    (h.lists r).id = direction.string ++ "-" ++ suffix

def Covered (h : Heap π) (head : ContivRuleLists) (b : Ref) : Prop :=
  ∃ r ∈ head.refs, (h.lists r).id = (h.lists b).id

structure Pending (direction : TrafficDirection) (base : ContivRuleLists)
    (s : UpdateState π) (upd : String → Option Rules) : Prop where
  baseWF : WF s.heap base
  headWF : WF s.heap s.head
  baseIDs : IDsAllocated direction s.allocated s.heap base
  headIDs : IDsAllocated direction s.allocated s.heap s.head
  apart : ∀ r ∈ s.head.refs, r ∉ base.refs
  id_iff : ∀ r ∈ s.head.refs, ∀ b ∈ base.refs,
    (s.heap.lists b).id = (s.heap.lists r).id ↔
      (s.heap.lists b).rules = (s.heap.lists r).rules
  assigned : ∀ x rules, upd x = some rules →
    ∃ r, s.head.byInterface x = some r ∧ (s.heap.lists r).rules = rules
  touched : ∀ x b, base.byInterface x = some b → upd x ≠ none →
    Covered s.heap s.head b
  kept : ∀ x b, base.byInterface x = some b → upd x = none →
    ∀ r ∈ s.head.refs, (s.heap.lists r).id = (s.heap.lists b).id →
      s.head.byInterface x = some r
  origin : ∀ x r, s.head.byInterface x = some r → upd x = none →
    ∃ b, base.byInterface x = some b ∧ (s.heap.lists b).id = (s.heap.lists r).id

def PrivCopied (base : ContivRuleLists) (s : UpdateState π) : Prop :=
  ∀ r ∈ s.head.refs, ∀ b ∈ base.refs, (s.heap.lists b).id = (s.heap.lists r).id →
      (s.heap.lists b).priv = (s.heap.lists r).priv

structure Inserted (s s' : UpdateState π) (list : ContivRuleList π) : Prop where
  head : WF s'.heap s'.head
  allocated : s'.allocated = s.allocated
  next : s'.heap.next = s.heap.next + 1
  new : s'.heap.lists s.heap.next = list
  refs_iff : ∀ r, r ∈ s'.head.refs ↔ r = s.heap.next ∨ r ∈ s.head.refs
  owner : s'.head.byInterface =
    claim s.heap.next list.interfaces s.head.byInterface
  id : ∀ r ≠ s.heap.next, (s'.heap.lists r).id = (s.heap.lists r).id
  rules : ∀ r ≠ s.heap.next, (s'.heap.lists r).rules = (s.heap.lists r).rules
  priv : ∀ r ≠ s.heap.next, (s'.heap.lists r).priv = (s.heap.lists r).priv
  outside : ∀ r ≠ s.heap.next, r ∉ s.head.refs → s'.heap.lists r = s.heap.lists r

variable {r : Ref}

theorem alloc_of_ne {h : Heap π} {list : ContivRuleList π} (hne : r ≠ h.next) :
    (h.alloc list).2.lists r = h.lists r := by
  simp [Heap.alloc, hne]

variable {crls : ContivRuleLists}

theorem WF.alloc {h : Heap π} (hwf : WF h crls) (list : ContivRuleList π) :
    WF (h.alloc list).2 crls :=
  hwf.congr (Nat.le_succ _) fun r hr => by
    rw [alloc_of_ne (hwf.allocated r hr).ne]
    exact ⟨rfl, rfl, rfl⟩

theorem inserted_insertNew {s : UpdateState π} (hhead : WF s.heap s.head)
    (o : SetOrder String) {list : ContivRuleList π}
    (hid : s.head.byID list.id = none)
    (hrules : ∀ r ∈ s.head.refs, (s.heap.lists r).rules ≠ list.rules) :
    Inserted s (s.insertNew o list) list := by
  have hold : ∀ r ≠ s.heap.next, (s.heap.alloc list).2.lists r = s.heap.lists r :=
    fun r hne => alloc_of_ne hne
  have hnew : (s.heap.alloc list).2.lists s.heap.next = list := by
    simp [Heap.alloc]
  have hne : ∀ r ∈ s.head.refs, r ≠ s.heap.next :=
    fun r hr => (hhead.allocated r hr).ne
  obtain ⟨head', hinsert, hwf', hrefs, howner⟩ :=
    (hhead.alloc list).insert_eq (r := s.heap.next) o (Nat.lt_succ_self _)
      (by rw [hnew]; exact hid)
      (fun r hr => by
        rw [hnew, hold r (hne r hr)]
        exact hrules r hr)
  have heq : s.insertNew o list =
      { s with
        heap := (s.heap.alloc list).2.give s.head.refs s.heap.next
          ((s.heap.alloc list).2.lists s.heap.next).interfaces
        head := head' } := by
    change { s with
      heap := (ContivRuleLists.insert o s.heap.next
        ((s.heap.alloc list).2, s.head)).2.1
      head := (ContivRuleLists.insert o s.heap.next
        ((s.heap.alloc list).2, s.head)).2.2 } = _
    rw [hinsert]
  rw [heq]
  constructor
  · exact hwf'
  · rfl
  · rfl
  · simp [hnew]
  · exact hrefs
  · rw [hnew] at howner
    exact howner
  · intro r hr
    rw [Heap.id_give, hold r hr]
  · intro r hr
    rw [Heap.rules_give, hold r hr]
  · intro r hr
    rw [Heap.priv_give, hold r hr]
  · intro r hr hmem
    rw [Heap.give_of_notMem hr hmem, hold r hr]

structure Extends (s s' : UpdateState π) : Prop where
  next_le : s.heap.next ≤ s'.heap.next
  refs : ∀ r ∈ s'.head.refs, r ∈ s.head.refs ∨ s.heap.next ≤ r
  outside : ∀ r < s.heap.next, r ∉ s.head.refs → s'.heap.lists r = s.heap.lists r

theorem Extends.refl (s : UpdateState π) : Extends s s :=
  ⟨le_rfl, fun _ hr => Or.inl hr, fun _ _ _ => rfl⟩

theorem Extends.trans {s₁ s₂ s₃ : UpdateState π} (h₁ : Extends s₁ s₂)
    (h₂ : Extends s₂ s₃) : Extends s₁ s₃ where
  next_le := h₁.next_le.trans h₂.next_le
  refs r hr := by
    rcases h₂.refs r hr with hold | hnew
    · exact h₁.refs r hold
    · exact Or.inr (h₁.next_le.trans hnew)
  outside r hr hmem := by
    rw [h₂.outside r (hr.trans_le h₁.next_le), h₁.outside r hr hmem]
    intro hmem'
    rcases h₁.refs r hmem' with hold | hnew
    · exact hmem hold
    · exact absurd hr (not_lt.mpr hnew)

theorem Inserted.extends {s s' : UpdateState π} {list : ContivRuleList π}
    (h : Inserted s s' list) : Extends s s' where
  next_le := h.next ▸ Nat.le_succ _
  refs r hr := by
    rcases (h.refs_iff r).mp hr with heq | hold
    · exact Or.inr heq.ge
    · exact Or.inl hold
  outside r hr hmem := h.outside r hr.ne hmem

theorem pending_new {direction : TrafficDirection} {base : ContivRuleLists}
    {allocated : Finset String} {h : Heap π} (hwf : WF h base)
    (hids : IDsAllocated direction allocated h base) :
    Pending direction base ⟨allocated, h, .new⟩ fun _ => none where
  baseWF := hwf
  headWF := wf_new h
  baseIDs := hids
  headIDs r hr := by simp at hr
  apart r hr := by simp at hr
  id_iff r hr := by simp at hr
  assigned x rules hx := by simp at hx
  touched x b _ hx := by simp at hx
  kept x b _ _ r hr := by simp at hr
  origin x r hr := by simp at hr

section Update

variable {direction : TrafficDirection} {base : ContivRuleLists}
  {s : UpdateState π} {upd upd' : String → Option Rules}
  {list : ContivRuleList π}

/-- The list may join the collection of the transaction, so that afterwards
`upd'` has been updated. -/
structure Insertable (base : ContivRuleLists) (s : UpdateState π)
    (upd upd' : String → Option Rules) (list : ContivRuleList π) :
    Prop where
  id_iff : ∀ b ∈ base.refs, (s.heap.lists b).id = list.id ↔
    (s.heap.lists b).rules = list.rules
  priv : ∀ b ∈ base.refs, (s.heap.lists b).id = list.id →
    (s.heap.lists b).priv = list.priv
  id_ne : ∀ r ∈ s.head.refs, (s.heap.lists r).id ≠ list.id
  rules_ne : ∀ r ∈ s.head.refs, (s.heap.lists r).rules ≠ list.rules
  upd_eq : ∀ x, upd' x = upd x ∨ (x ∈ list.interfaces ∧ upd' x = some list.rules)
  interfaces : ∀ x ∈ list.interfaces, upd' x = some list.rules ∨
    (upd' x = none ∧ ∃ b, base.byInterface x = some b ∧
      (s.heap.lists b).id = list.id)
  whole : ∀ x b, base.byInterface x = some b →
    (s.heap.lists b).id = list.id → x ∈ list.interfaces
  covered : ∀ x b, base.byInterface x = some b → upd' x ≠ upd x →
    Covered s.heap s.head b ∨ (s.heap.lists b).id = list.id

variable {b : Ref}

theorem Inserted.base_lists {s' : UpdateState π} (hins : Inserted s s' list)
    (h : Pending direction base s upd) (hb : b ∈ base.refs) :
    s'.heap.lists b = s.heap.lists b :=
  hins.outside b (h.baseWF.allocated b hb).ne fun hmem => h.apart b hmem hb

theorem Inserted.base_owned {s' : UpdateState π} (hins : Inserted s s' list)
    (h : Pending direction base s upd) {x : String}
    (hb : base.byInterface x = some b) :
    s'.heap.lists b = s.heap.lists b :=
  hins.base_lists h ((h.baseWF.byInterface_iff x b).mp hb).1

theorem Pending.ne_next (h : Pending direction base s upd)
    (hr : r ∈ s.head.refs) : r ≠ s.heap.next :=
  (h.headWF.allocated r hr).ne

section

variable {s' : UpdateState π} (hins : Inserted s s' list)
  (h : Pending direction base s upd)
include hins h

theorem Inserted.owner_of_notMem {x : String}
    (howner : s.head.byInterface x = some r) (hS : x ∉ list.interfaces) :
    s'.head.byInterface x = some r := by
  have hr := h.ne_next ((h.headWF.byInterface_iff x r).mp howner).1
  rw [hins.owner, claim_of_notMem hS, howner]
  rw [howner]
  exact fun heq => hr (Option.some.inj heq)

theorem Inserted.assigned (hlist : Insertable base s upd upd' list)
    {x : String} {rules : Rules} (hx : upd' x = some rules) :
    ∃ r, s'.head.byInterface x = some r ∧ (s'.heap.lists r).rules = rules := by
  by_cases hS : x ∈ list.interfaces
  · refine ⟨s.heap.next, hins.owner ▸ claim_of_mem hS, ?_⟩
    rw [hins.new]
    rcases hlist.interfaces x hS with hsome | hnone
    · exact Option.some.inj (hsome.symm.trans hx)
    · rw [hnone.1] at hx
      simp at hx
  · have hupd := (hlist.upd_eq x).resolve_right fun hS' => hS hS'.1
    obtain ⟨r, howner, hrules⟩ := h.assigned x rules (hupd.symm.trans hx)
    have hr := h.ne_next ((h.headWF.byInterface_iff x r).mp howner).1
    refine ⟨r, hins.owner_of_notMem h howner hS, ?_⟩
    rw [hins.rules r hr, hrules]

theorem Inserted.covered (hlist : Insertable base s upd upd' list) {x : String}
    (hb : base.byInterface x = some b) (hx : upd' x ≠ none) :
    Covered s'.heap s'.head b := by
  have hcovered : Covered s.heap s.head b ∨ (s.heap.lists b).id = list.id := by
    by_cases heq : upd' x = upd x
    · exact Or.inl (h.touched x b hb (heq ▸ hx))
    · exact hlist.covered x b hb heq
  unfold Covered
  rw [hins.base_owned h hb]
  rcases hcovered with ⟨r, hr, hid⟩ | hid
  · refine ⟨r, (hins.refs_iff r).mpr (Or.inr hr), ?_⟩
    rw [hins.id r (h.ne_next hr), hid]
  · refine ⟨s.heap.next, (hins.refs_iff _).mpr (Or.inl rfl), ?_⟩
    rw [hins.new, hid]

end

-- A list with the ID of a list of the cache is not yet in the transaction.
theorem Insertable.notMem_of_kept (hlist : Insertable base s upd upd' list)
    {x : String} (hb : base.byInterface x = some b) (hx : upd' x = none)
    (hr : r ∈ s.head.refs) (hid : (s.heap.lists r).id = (s.heap.lists b).id) :
    x ∉ list.interfaces := by
  intro hS
  rcases hlist.interfaces x hS with hsome | ⟨_, b', hb', hid'⟩
  · rw [hsome] at hx
    simp at hx
  · rw [hb] at hb'
    rw [← Option.some.inj hb', ← hid] at hid'
    exact hlist.id_ne r hr hid'

theorem Insertable.upd_eq_none (hlist : Insertable base s upd upd' list)
    {x : String} (hx : upd' x = none) : upd x = none := by
  rcases hlist.upd_eq x with heq | hsome
  · rw [← heq, hx]
  · rw [hsome.2] at hx
    simp at hx

theorem Inserted.kept {s' : UpdateState π} (hins : Inserted s s' list)
    (h : Pending direction base s upd)
    (hlist : Insertable base s upd upd' list) {x : String}
    (hb : base.byInterface x = some b) (hx : upd' x = none)
    (hr : r ∈ s'.head.refs)
    (hid : (s'.heap.lists r).id = (s'.heap.lists b).id) :
    s'.head.byInterface x = some r := by
  rw [hins.base_owned h hb] at hid
  rcases (hins.refs_iff r).mp hr with rfl | hr
  · rw [hins.new] at hid
    rw [hins.owner]
    exact claim_of_mem (hlist.whole x b hb hid.symm)
  · rw [hins.id r (h.ne_next hr)] at hid
    exact hins.owner_of_notMem h (h.kept x b hb (hlist.upd_eq_none hx) r hr hid)
      (hlist.notMem_of_kept hb hx hr hid)

theorem Inserted.origin {s' : UpdateState π} (hins : Inserted s s' list)
    (h : Pending direction base s upd)
    (hlist : Insertable base s upd upd' list) {x : String}
    (howner : s'.head.byInterface x = some r) (hx : upd' x = none) :
    ∃ b, base.byInterface x = some b ∧
      (s'.heap.lists b).id = (s'.heap.lists r).id := by
  rw [hins.owner, claim_eq_some_iff] at howner
  rcases howner with ⟨rfl, hS⟩ | ⟨hne, hS, howner⟩
  · rcases hlist.interfaces x hS with hsome | ⟨_, b, hb, hid⟩
    · rw [hsome] at hx
      simp at hx
    · refine ⟨b, hb, ?_⟩
      rw [hins.base_owned h hb, hins.new, hid]
  · obtain ⟨b, hb, hid⟩ := h.origin x r howner (hlist.upd_eq_none hx)
    refine ⟨b, hb, ?_⟩
    rw [hins.base_owned h hb, hins.id r hne, hid]

theorem Pending.insertNew (h : Pending direction base s upd)
    (hlist : Insertable base s upd upd' list)
    (hid : ∃ suffix ∈ s.allocated, list.id =
      direction.string ++ "-" ++ suffix) (o : SetOrder String) :
    Pending direction base (s.insertNew o list) upd' := by
  have hins := inserted_insertNew h.headWF o
    (h.headWF.lookupByID_eq_none_iff.mpr hlist.id_ne) hlist.rules_ne
  constructor
  · exact h.baseWF.congr (hins.next ▸ Nat.le_succ _) fun b hb => by
      rw [hins.base_lists h hb]
      exact ⟨rfl, rfl, rfl⟩
  · exact hins.head
  · intro b hb
    rw [hins.base_lists h hb, hins.allocated]
    exact h.baseIDs b hb
  · intro r hr
    rw [hins.allocated]
    rcases (hins.refs_iff r).mp hr with rfl | hr
    · rw [hins.new]
      exact hid
    · rw [hins.id r (h.ne_next hr)]
      exact h.headIDs r hr
  · intro r hr hb
    rcases (hins.refs_iff r).mp hr with rfl | hr
    · exact absurd (h.baseWF.allocated _ hb) (lt_irrefl _)
    · exact h.apart r hr hb
  · intro r hr b hb
    rw [hins.base_lists h hb]
    rcases (hins.refs_iff r).mp hr with rfl | hr
    · rw [hins.new]
      exact hlist.id_iff b hb
    · rw [hins.id r (h.ne_next hr), hins.rules r (h.ne_next hr)]
      exact h.id_iff r hr b hb
  · exact fun x rules hx => hins.assigned h hlist hx
  · exact fun x b hb hx => hins.covered h hlist hb hx
  · exact fun x b hb hx r hr hid => hins.kept h hlist hb hx hr hid
  · exact fun x r howner hx => hins.origin h hlist howner hx

theorem Insertable.privCopied (h : Pending direction base s upd)
    (hlist : Insertable base s upd upd' list) (o : SetOrder String)
    (hpriv : PrivCopied base s) : PrivCopied base (s.insertNew o list) := by
  have hins := inserted_insertNew h.headWF o
    (h.headWF.lookupByID_eq_none_iff.mpr hlist.id_ne) hlist.rules_ne
  intro r hr b hb
  rw [hins.base_lists h hb]
  rcases (hins.refs_iff r).mp hr with rfl | hr
  · rw [hins.new]
    exact hlist.priv b hb
  · rw [hins.id r (h.ne_next hr), hins.priv r (h.ne_next hr)]
    exact hpriv r hr b hb

theorem WF.byInterface_give_insert_of_ne {h : Heap π} (hwf : WF h crls)
    (hr : r ∈ crls.refs) {x y : String} (hy : y ≠ x) :
    (crls.give r (insert x (h.lists r).interfaces)).byInterface
      y = crls.byInterface y := by
  change claim r _ crls.byInterface y = _
  by_cases hyr : y ∈ (h.lists r).interfaces
  · rw [claim_of_mem (by simp [hyr]), (hwf.byInterface_iff y r).mpr ⟨hr, hyr⟩]
  · refine claim_of_notMem (by simp [hy, hyr]) fun hown => ?_
    exact hyr ((hwf.byInterface_iff y r).mp hown).2

section

variable (h : Pending direction base s upd)
include h

theorem Pending.assign (hr : r ∈ s.head.refs) {x : String}
    (hcovered : ∀ b, base.byInterface x = some b → Covered s.heap s.head b) :
    Pending direction base
      { s with
        heap := (ContivRuleLists.assignInterface r x (s.heap, s.head)).1
        head := (ContivRuleLists.assignInterface r x (s.heap, s.head)).2 }
      (Function.update upd x (some (s.heap.lists r).rules)) := by
  have heq := h.headWF.assignInterface_eq (x := x) hr
  have hbase : ∀ b ∈ base.refs, (s.heap.give s.head.refs r
      (insert x (s.heap.lists r).interfaces)).lists b = s.heap.lists b := by
    intro b hb
    have hb' : b ∉ s.head.refs := fun hmem => h.apart b hmem hb
    exact Heap.give_of_notMem (fun heq => hb' (heq ▸ hr)) hb'
  have howner : ∀ y ≠ x, (s.head.give r
      (insert x (s.heap.lists r).interfaces)).byInterface y =
      s.head.byInterface y :=
    fun y hy => h.headWF.byInterface_give_insert_of_ne hr hy
  have hself : (s.head.give r
      (insert x (s.heap.lists r).interfaces)).byInterface x = some r :=
    claim_of_mem (by simp)
  rw [heq]
  constructor
  · exact h.baseWF.congr le_rfl fun b hb => by
      rw [hbase b hb]
      exact ⟨rfl, rfl, rfl⟩
  · exact h.headWF.give hr _
  · intro b hb
    rw [Heap.id_give]
    exact h.baseIDs b hb
  · intro r' hr'
    rw [Heap.id_give]
    exact h.headIDs r' hr'
  · exact h.apart
  · intro r' hr' b hb
    simp only [Heap.id_give, Heap.rules_give]
    exact h.id_iff r' hr' b hb
  · intro y rules hy
    simp only [Heap.rules_give]
    by_cases hyx : y = x
    · rw [hyx, Function.update_self] at hy
      rw [hyx]
      exact ⟨r, hself, Option.some.inj hy⟩
    · rw [Function.update_of_ne hyx] at hy
      rw [howner y hyx]
      exact h.assigned y rules hy
  · intro y b hb hy
    simp only [Covered, Heap.id_give, ContivRuleLists.refs_give]
    by_cases hyx : y = x
    · rw [hyx] at hb
      exact hcovered b hb
    · rw [Function.update_of_ne hyx] at hy
      exact h.touched y b hb hy
  · intro y b hb hy r' hr' hid
    simp only [Heap.id_give] at hid
    by_cases hyx : y = x
    · rw [hyx, Function.update_self] at hy
      simp at hy
    · rw [Function.update_of_ne hyx] at hy
      rw [howner y hyx]
      exact h.kept y b hb hy r' hr' hid
  · intro y r' hy hupd
    simp only [Heap.id_give]
    by_cases hyx : y = x
    · rw [hyx, Function.update_self] at hupd
      simp at hupd
    · rw [Function.update_of_ne hyx] at hupd
      rw [howner y hyx] at hy
      exact h.origin y r' hy hupd

/-- The invariant is not about other lists on the heap, nor about what a
renderer keeps with the lists. -/
theorem Pending.congr {h' : Heap π} (hnext : s.heap.next ≤ h'.next)
    (hsame : ∀ r, r ∈ base.refs ∨ r ∈ s.head.refs → (h'.lists r).id =
      (s.heap.lists r).id ∧ (h'.lists r).rules = (s.heap.lists r).rules ∧
      (h'.lists r).interfaces = (s.heap.lists r).interfaces) :
    Pending direction base ⟨s.allocated, h', s.head⟩ upd := by
  have hbase := fun r hr => hsame r (Or.inl hr)
  have hhead := fun r hr => hsame r (Or.inr hr)
  have hmem : ∀ x b, base.byInterface x = some b → b ∈ base.refs :=
    fun x b hb => ((h.baseWF.byInterface_iff x b).mp hb).1
  have hmem' : ∀ x r, s.head.byInterface x = some r → r ∈ s.head.refs :=
    fun x r hr => ((h.headWF.byInterface_iff x r).mp hr).1
  constructor
  · exact h.baseWF.congr hnext hbase
  · exact h.headWF.congr hnext hhead
  · intro r hr
    rw [(hbase r hr).1]
    exact h.baseIDs r hr
  · intro r hr
    rw [(hhead r hr).1]
    exact h.headIDs r hr
  · exact h.apart
  · intro r hr b hb
    rw [(hhead r hr).1, (hhead r hr).2.1, (hbase b hb).1, (hbase b hb).2.1]
    exact h.id_iff r hr b hb
  · intro x rules hx
    obtain ⟨r, hr, hrules⟩ := h.assigned x rules hx
    exact ⟨r, hr, (hhead r (hmem' x r hr)).2.1.trans hrules⟩
  · intro x b hb hx
    obtain ⟨r, hr, hid⟩ := h.touched x b hb hx
    exact ⟨r, hr, by rw [(hhead r hr).1, (hbase b (hmem x b hb)).1, hid]⟩
  · intro x b hb hx r hr hid
    rw [(hhead r hr).1, (hbase b (hmem x b hb)).1] at hid
    exact h.kept x b hb hx r hr hid
  · intro x r hr hx
    obtain ⟨b, hb, hid⟩ := h.origin x r hr hx
    refine ⟨b, hb, ?_⟩
    rw [(hhead r (hmem' x r hr)).1, (hbase b (hmem x b hb)).1, hid]

theorem Pending.upd_of_not_covered (hb : ¬ Covered s.heap s.head b)
    {x : String} (hx : base.byInterface x = some b) : upd x = none := by
  by_contra hne
  exact hb (h.touched x b hx hne)

theorem Pending.rules_ne_of_not_covered (hmem : b ∈ base.refs)
    (hb : ¬ Covered s.heap s.head b) (hr : r ∈ s.head.refs) :
    (s.heap.lists r).rules ≠ (s.heap.lists b).rules := by
  intro hrules
  exact hb ⟨r, hr, ((h.id_iff r hr b hmem).mpr hrules.symm).symm⟩

theorem Pending.insertable_copy (hmem : b ∈ base.refs)
    (hb : ¬ Covered s.heap s.head b) {set : InterfaceSet}
    (hset : ∀ x ∈ (s.heap.lists b).interfaces, x ∈ set)
    (hupd : ∀ x, upd' x = upd x ∨ (x ∈ set ∧ upd' x = some (s.heap.lists
      b).rules))
    (hrest : ∀ x ∈ set, x ∈ (s.heap.lists b).interfaces ∨ upd' x = some
      (s.heap.lists b).rules)
    (hcovered : ∀ x b, base.byInterface x = some b → upd' x ≠ upd x → Covered
      s.heap s.head b) :
    Insertable base s upd upd'
      { s.heap.lists b with interfaces := set } where
  id_iff b' hb' := by
    constructor
    · exact fun hid => by rw [h.baseWF.eq_of_id hb' hmem hid]
    · exact fun hrules => by rw [h.baseWF.eq_of_rules hb' hmem hrules]
  priv b' hb' hid := by rw [h.baseWF.eq_of_id hb' hmem hid]
  id_ne r hr hid := hb ⟨r, hr, hid⟩
  rules_ne r hr := h.rules_ne_of_not_covered hmem hb hr
  upd_eq := hupd
  interfaces x hx := by
    rcases hrest x hx with hmemx | hsome
    · have howner := (h.baseWF.byInterface_iff x b).mpr ⟨hmem, hmemx⟩
      rcases hupd x with heq | hsome
      · rw [heq, h.upd_of_not_covered hb howner]
        exact Or.inr ⟨rfl, b, howner, rfl⟩
      · exact Or.inl hsome.2
    · exact Or.inl hsome
  whole x b' hb' hid := by
    obtain ⟨hmem', hx⟩ := (h.baseWF.byInterface_iff x b').mp hb'
    rw [h.baseWF.eq_of_id hmem' hmem hid] at hx
    exact hset x hx
  covered x b' hb' hne := Or.inl (hcovered x b' hb' hne)

theorem Insertable.extends (hlist : Insertable base s upd upd' list)
    (o : SetOrder String) :
    Extends s (s.insertNew o list) :=
  (inserted_insertNew h.headWF o (h.headWF.lookupByID_eq_none_iff.mpr hlist.id_ne)
    hlist.rules_ne).extends

theorem Pending.copyOrig (o : SetOrder String) (x : String) :
    Pending direction base (s.copyOrig o base x) upd ∧
      Extends s (s.copyOrig o base x) ∧
      (PrivCopied base s → PrivCopied base (s.copyOrig o base x)) ∧
      ∀ b, base.byInterface x = some b →
        Covered (s.copyOrig o base x).heap (s.copyOrig o base x).head b := by
  unfold UpdateState.copyOrig ContivRuleLists.lookupByInterface
    ContivRuleLists.lookupByID
  cases howner : base.byInterface x with
  | none => exact ⟨h, .refl s, fun hpriv => hpriv, by simp⟩
  | some orig =>
      have hmem := ((h.baseWF.byInterface_iff x orig).mp howner).1
      cases hid : s.head.byID (s.heap.lists orig).id with
      | some r =>
          simp only [hid]
          refine ⟨h, .refl s, fun hpriv => hpriv, ?_⟩
          intro b hb
          rw [← Option.some.inj hb]
          exact ⟨r, (h.headWF.byID_iff _ r).mp hid⟩
      | none =>
          simp only [hid]
          have hb : ¬ Covered s.heap s.head orig := by
            intro hcovered
            obtain ⟨r, hr, hid'⟩ := hcovered
            exact h.headWF.lookupByID_eq_none_iff.mp hid r hr hid'
          have hlist : Insertable base s upd upd (s.heap.lists orig) :=
            h.insertable_copy hmem hb (fun _ => id) (fun _ => Or.inl rfl)
              (fun _ => Or.inl) fun _ _ _ hne => absurd rfl hne
          have hins := inserted_insertNew h.headWF o hid hlist.rules_ne
          refine ⟨h.insertNew hlist (h.baseIDs orig hmem) o, hins.extends,
            hlist.privCopied h o, ?_⟩
          intro b hb
          rw [← Option.some.inj hb]
          refine ⟨s.heap.next, (hins.refs_iff _).mpr (Or.inl rfl), ?_⟩
          rw [hins.new, hins.base_lists h hmem]

end

theorem extends_assign (hwf : WF s.heap s.head) (hr : r ∈ s.head.refs)
    {x : String} :
    Extends s
      { s with
        heap := (ContivRuleLists.assignInterface r x (s.heap, s.head)).1
        head := (ContivRuleLists.assignInterface r x (s.heap, s.head)).2 } := by
  rw [hwf.assignInterface_eq hr]
  refine ⟨le_rfl, fun _ hr' => Or.inl hr', ?_⟩
  intro r' _ hr'
  exact Heap.give_of_notMem (fun heq => hr' (heq ▸ hr)) hr'

theorem privCopied_assign (hwf : WF s.heap s.head) (hr : r ∈ s.head.refs)
    {x : String} (hpriv : PrivCopied base s) :
    PrivCopied base
      { s with
        heap := (ContivRuleLists.assignInterface r x (s.heap, s.head)).1
        head := (ContivRuleLists.assignInterface r x (s.heap, s.head)).2 } := by
  rw [hwf.assignInterface_eq hr]
  intro r' hr' b hb
  simp only [Heap.id_give, Heap.priv_give]
  exact hpriv r' hr' b hb

theorem id_append_inj {a b : String} :
    direction.string ++ "-" ++ a = direction.string ++ "-" ++ b ↔ a = b := by
  rw [← String.toList_inj, ← @String.toList_inj a]
  simp

theorem IDsAllocated.id_ne {allocated : Finset String} {h : Heap π}
    (hids : IDsAllocated direction allocated h crls) (suffixes : SuffixSource)
    (hr : r ∈ crls.refs) :
    (h.lists r).id ≠ (generateListID direction suffixes allocated).1 := by
  intro heq
  obtain ⟨suffix, hmem, hid⟩ := hids r hr
  rw [hid] at heq
  rw [generateListID, id_append_inj] at heq
  exact suffixes.fresh allocated (heq ▸ hmem)

theorem Pending.allocate (h : Pending direction base s upd) (suffix : String) :
    Pending direction base
      { s with allocated := insert suffix s.allocated } upd where
  baseWF := h.baseWF
  headWF := h.headWF
  baseIDs r hr := by
    obtain ⟨used, hused, hid⟩ := h.baseIDs r hr
    exact ⟨used, Finset.mem_insert_of_mem hused, hid⟩
  headIDs r hr := by
    obtain ⟨used, hused, hid⟩ := h.headIDs r hr
    exact ⟨used, Finset.mem_insert_of_mem hused, hid⟩
  apart := h.apart
  id_iff := h.id_iff
  assigned := h.assigned
  touched := h.touched
  kept := h.kept
  origin := h.origin

section Updated

variable {x : String} {rules : Rules}

theorem covered_of_update_ne
    (hcovered : ∀ b, base.byInterface x = some b → Covered s.heap s.head b)
    {y : String} (hb : base.byInterface y = some b)
    (hne : Function.update upd x (some rules) y ≠ upd y) :
    Covered s.heap s.head b := by
  by_cases hyx : y = x
  · exact hcovered b (hyx ▸ hb)
  · rw [Function.update_of_ne hyx] at hne
    exact absurd rfl hne

theorem Pending.insertable_moved (h : Pending direction base s upd)
    (hcovered : ∀ b, base.byInterface x = some b → Covered s.heap s.head b)
    (hb : b ∈ base.refs) (hnot : ¬ Covered s.heap s.head b)
    (hrules : (s.heap.lists b).rules = rules) :
    Insertable base s upd (Function.update upd x (some rules))
      { s.heap.lists b with
        interfaces := insert x (s.heap.lists b).interfaces } := by
  refine h.insertable_copy hb hnot
    (fun y hy => Finset.mem_insert_of_mem hy) (fun y => ?_)
    (fun y hy => ?_) fun y b hb hne => covered_of_update_ne hcovered hb hne
  · by_cases hyx : y = x
    · exact Or.inr (by simp [hyx, hrules])
    · exact Or.inl (Function.update_of_ne hyx _ _)
  · rcases Finset.mem_insert.mp hy with hyx | hy
    · exact Or.inr (by simp [hyx, hrules])
    · exact Or.inl hy

theorem Pending.insertable_fresh (h : Pending direction base s upd)
    (hcovered : ∀ b, base.byInterface x = some b → Covered s.heap s.head b)
    (suffixes : SuffixSource)
    (hbase : ∀ b ∈ base.refs, (s.heap.lists b).rules ≠ rules)
    (hhead : ∀ r ∈ s.head.refs, (s.heap.lists r).rules ≠ rules)
    (allocated : Finset String) :
    Insertable base ⟨allocated, s.heap, s.head⟩ upd
      (Function.update upd x (some rules))
      ⟨(generateListID direction suffixes s.allocated).1, rules, {x}, none⟩ := by
  have hfresh : ∀ b ∈ base.refs, (s.heap.lists b).id ≠
      (generateListID direction suffixes s.allocated).1 :=
    fun b hb => h.baseIDs.id_ne suffixes hb
  refine ⟨fun b hb => ?_, fun b hb hid => ?_, fun r hr => ?_, hhead,
    fun y => ?_, fun y hy => ?_, fun y b hb hid => ?_,
    fun y b hb hne => Or.inl (covered_of_update_ne hcovered hb hne)⟩
  · exact iff_of_false (hfresh b hb) (hbase b hb)
  · exact absurd hid (hfresh b hb)
  · exact h.headIDs.id_ne suffixes hr
  · by_cases hyx : y = x
    · exact Or.inr (by simp [hyx])
    · exact Or.inl (Function.update_of_ne hyx _ _)
  · rw [Finset.mem_singleton.mp hy, Function.update_self]
    exact Or.inl rfl
  · exact absurd hid (hfresh b ((h.baseWF.byInterface_iff y b).mp hb).1)

end Updated

/-- An update preserves the invariant and changes lists of the transaction
only. -/
theorem Pending.updateInterface (h : Pending direction base s upd)
    (c : Choices) (x : String) (rules : Rules) :
    Pending direction base (updateInterface c direction base x rules s)
        (Function.update upd x (some rules)) ∧
      Extends s (RuleCache.updateInterface c direction base x rules s) ∧
      (PrivCopied base s → PrivCopied base
        (RuleCache.updateInterface c direction base x rules s)) := by
  obtain ⟨hcopy, hextends, hpriv, hcovered⟩ := h.copyOrig c.order x
  unfold RuleCache.updateInterface
  generalize s.copyOrig c.order base x = t at hcopy hextends hpriv hcovered
  cases hlookup : t.head.lookupByRules t.heap rules with
  | some r =>
      obtain ⟨hr, hrules⟩ := hcopy.headWF.lookupByRules_eq_some_iff.mp hlookup
      rw [← hrules]
      simp only [hrules, hlookup]
      exact ⟨hrules ▸ hcopy.assign hr hcovered,
        hextends.trans (extends_assign hcopy.headWF hr),
        fun hs => privCopied_assign hcopy.headWF hr (hpriv hs)⟩
  | none =>
      simp only [hlookup]
      have hnone := hcopy.headWF.lookupByRules_eq_none_iff.mp hlookup
      cases hbase : base.lookupByRules t.heap rules with
      | some b =>
          obtain ⟨hb, hrules⟩ :=
            hcopy.baseWF.lookupByRules_eq_some_iff.mp hbase
          have hnot : ¬ Covered t.heap t.head b := by
            intro hcov
            obtain ⟨r, hr, hid⟩ := hcov
            exact hnone r hr
              (hrules ▸ ((hcopy.id_iff r hr b hb).mp hid.symm).symm)
          have hx : x ∉ (t.heap.lists b).interfaces := fun hx =>
            hnot (hcovered b ((hcopy.baseWF.byInterface_iff x b).mpr ⟨hb, hx⟩))
          have hlist := hcopy.insertable_moved hcovered hb hnot hrules
          simp only [if_neg hx]
          exact ⟨hcopy.insertNew hlist (hcopy.baseIDs b hb) c.order,
            hextends.trans (hlist.extends hcopy c.order),
            fun hs => hlist.privCopied hcopy c.order (hpriv hs)⟩
      | none =>
          have hnobase := hcopy.baseWF.lookupByRules_eq_none_iff.mp hbase
          have halloc := hcopy.allocate (c.suffixes.next t.allocated)
          have hlist := hcopy.insertable_fresh hcovered c.suffixes hnobase
            hnone (insert (c.suffixes.next t.allocated) t.allocated)
          have hextends' : Extends s
              ⟨insert (c.suffixes.next t.allocated) t.allocated, t.heap,
                t.head⟩ :=
            ⟨hextends.next_le, hextends.refs, hextends.outside⟩
          exact ⟨halloc.insertNew hlist
              ⟨_, Finset.mem_insert_self _ _, rfl⟩ c.order,
            hextends'.trans (hlist.extends halloc c.order),
            fun hs => hlist.privCopied halloc c.order (hpriv hs)⟩

/-! ## The assignment after commit -/

theorem Pending.committable (h : Pending direction base s upd)
    (hr : r ∈ s.head.refs) : Committable s.heap base r :=
  ⟨h.apart r hr, h.headWF.allocated r hr, h.id_iff r hr⟩

theorem Pending.rules_target (h : Pending direction base s upd)
    (hr : r ∈ s.head.refs) :
    (s.heap.lists (target s.heap base r)).rules = (s.heap.lists r).rules := by
  unfold target
  cases hid : base.byID (s.heap.lists r).id with
  | none => rfl
  | some b =>
      obtain ⟨hb, hid'⟩ := (h.baseWF.byID_iff _ _).mp hid
      exact (h.id_iff r hr b hb).mp hid'

theorem Pending.target_eq_iff (h : Pending direction base s upd)
    (hb : b ∈ base.refs) :
    target s.heap base r = b ↔ (s.heap.lists r).id = (s.heap.lists b).id := by
  constructor
  · intro heq
    rw [← heq, id_target h.baseWF]
  · intro hid
    have hsome := (h.baseWF.byID_iff _ b).mpr ⟨hb, hid.symm⟩
    rw [target, hsome, Option.getD_some]

theorem WF.pairwise_ne (hwf : WF s.heap s.head) {β : Type*}
    (f : ContivRuleList π → β)
    (hinj : ∀ r ∈ s.head.refs, ∀ r' ∈ s.head.refs,
      f (s.heap.lists r) = f (s.heap.lists r') → r = r') :
    s.head.refs.Pairwise fun r r' =>
      f (s.heap.lists r') ≠ f (s.heap.lists r) := by
  refine (List.Pairwise.and_mem.mp hwf.nodup).imp fun {r r'} hne heq => ?_
  exact hne.2.2 (hinj r' hne.2.1 r hne.1 heq).symm

section

variable (h : Pending direction base s upd)
include h

theorem Pending.committed (o : SetOrder String) :
    Committed s.heap (commit o s.head (s.heap, base)).1 base
      (commit o s.head (s.heap, base)).2 s.head.refs :=
  committed_foldl h.baseWF o (fun _ => h.committable)
    (h.headWF.pairwise_ne ContivRuleList.id
      fun _ hr _ hr' => h.headWF.eq_of_id hr hr')
    (h.headWF.pairwise_ne ContivRuleList.rules
      fun _ hr _ hr' => h.headWF.eq_of_rules hr hr')

theorem Pending.claims_spec :
    ((claims s.heap base s.head.refs).map Prod.fst).Nodup ∧
      (claims s.heap base s.head.refs).Pairwise fun c d => Disjoint c.2 d.2 := by
  have hids := h.headWF.pairwise_ne ContivRuleList.id
    fun _ hr _ hr' => h.headWF.eq_of_id hr hr'
  unfold claims
  constructor
  · rw [List.map_map, List.Nodup, List.pairwise_map]
    refine (hids.filter _).imp fun {r r'} hne heq => hne ?_
    have heq' : target s.heap base r = target s.heap base r' := heq
    rw [← id_target h.baseWF r', ← heq', id_target h.baseWF r]
  · rw [List.pairwise_map]
    refine (List.Pairwise.and_mem.mp (hids.filter _)).imp ?_
    intro r r' hne
    rw [Finset.disjoint_left]
    intro x hx hx'
    have heq := h.headWF.eq_of_interface (List.mem_of_mem_filter hne.1)
      (List.mem_of_mem_filter hne.2.1) hx hx'
    exact hne.2.2 (by rw [heq])

/-- After commit, an updated interface has a list with its rules, and every
other interface has the list it had. -/
theorem Pending.owner_commit (o : SetOrder String) (x : String) :
    (commit o s.head (s.heap, base)).2.byInterface x =
      if upd x = none then base.byInterface x
      else (s.head.byInterface x).map (target s.heap base) := by
  obtain ⟨hnodup, hdisjoint⟩ := h.claims_spec
  have hclaimed : ∀ r, s.head.byInterface x = some r →
      (commit o s.head (s.heap, base)).2.byInterface x =
        some (target s.heap base r) := by
    intro r hr
    obtain ⟨hmem, hx⟩ := (h.headWF.byInterface_iff x r).mp hr
    rw [(h.committed o).owner]
    refine claimAll_of_mem hnodup hdisjoint ?_ hx
    refine List.mem_map.mpr ⟨r, List.mem_filter.mpr ⟨hmem, ?_⟩, rfl⟩
    simpa using Finset.ne_empty_of_mem hx
  by_cases hupd : upd x = none
  · rw [if_pos hupd]
    cases hhead : s.head.byInterface x with
    | some r =>
        obtain ⟨b, hb, hid⟩ := h.origin x r hhead hupd
        rw [hclaimed r hhead, hb, (h.target_eq_iff
          ((h.baseWF.byInterface_iff x b).mp hb).1).mpr hid.symm]
    | none =>
        have hfree : ∀ r ∈ s.head.refs, x ∉ (s.heap.lists r).interfaces := by
          intro r hr hx
          rw [(h.headWF.byInterface_iff x r).mpr ⟨hr, hx⟩] at hhead
          simp at hhead
        rw [(h.committed o).owner]
        refine claimAll_of_forall_notMem ?_ ?_
        · intro c hc
          obtain ⟨r, hr, rfl⟩ := List.mem_map.mp hc
          exact hfree r (List.mem_of_mem_filter hr)
        · intro c hc hb
          obtain ⟨r, hr, rfl⟩ := List.mem_map.mp hc
          have hmem := List.mem_of_mem_filter hr
          have hid := (h.target_eq_iff
            ((h.baseWF.byInterface_iff x _).mp hb).1).mp rfl
          rw [h.kept x _ hb hupd r hmem hid] at hhead
          simp at hhead
  · rw [if_neg hupd]
    obtain ⟨rules, hrules⟩ := Option.ne_none_iff_exists'.mp hupd
    obtain ⟨r, hr, _⟩ := h.assigned x rules hrules
    rw [hclaimed r hr, hr, Option.map_some]

theorem Pending.owner_commit_target (o : SetOrder String)
    (hr : r ∈ s.head.refs) (x : String) :
    (commit o s.head (s.heap, base)).2.byInterface x =
        some (target s.heap base r) ↔ x ∈ (s.heap.lists r).interfaces := by
  have hinj : ∀ r' ∈ s.head.refs,
      target s.heap base r' = target s.heap base r → r' = r := by
    intro r' hr' heq
    refine h.headWF.eq_of_id hr' hr ?_
    rw [← id_target h.baseWF r', heq, id_target h.baseWF r]
  rw [h.owner_commit o x]
  constructor
  · intro howner
    by_cases hupd : upd x = none
    · rw [if_pos hupd] at howner
      have hhead := h.kept x _ howner hupd r hr (id_target h.baseWF r).symm
      exact ((h.headWF.byInterface_iff x r).mp hhead).2
    · rw [if_neg hupd, Option.map_eq_some_iff] at howner
      obtain ⟨r', hr', heq⟩ := howner
      obtain ⟨hmem, hx⟩ := (h.headWF.byInterface_iff x r').mp hr'
      rwa [hinj r' hmem heq] at hx
  · intro hx
    have hhead := (h.headWF.byInterface_iff x r).mpr ⟨hr, hx⟩
    by_cases hupd : upd x = none
    · obtain ⟨b, hb, hid⟩ := h.origin x r hhead hupd
      rw [if_pos hupd, hb, (h.target_eq_iff
        ((h.baseWF.byInterface_iff x b).mp hb).1).mpr hid.symm]
    · rw [if_neg hupd, hhead, Option.map_some]

theorem Pending.owner_commit_uncovered (o : SetOrder String)
    (hb : b ∈ base.refs) (hnot : ¬ Covered s.heap s.head b) (x : String) :
    (commit o s.head (s.heap, base)).2.byInterface x = some b ↔
      x ∈ (s.heap.lists b).interfaces := by
  rw [h.owner_commit o x]
  constructor
  · intro howner
    by_cases hupd : upd x = none
    · rw [if_pos hupd] at howner
      exact ((h.baseWF.byInterface_iff x b).mp howner).2
    · rw [if_neg hupd, Option.map_eq_some_iff] at howner
      obtain ⟨r, hr, heq⟩ := howner
      exact absurd ⟨r, ((h.headWF.byInterface_iff x r).mp hr).1,
        (h.target_eq_iff hb).mp heq⟩ hnot
  · intro hx
    have howner := (h.baseWF.byInterface_iff x b).mpr ⟨hb, hx⟩
    rw [if_pos (h.upd_of_not_covered hnot howner), howner]

end

end Update

end ContivVPP.RuleCache
