import Mathlib.Data.String.Basic
import ContivVPP.PartialLoops
import ContivVPP.RuleCacheRun

/-!
# Resync, and the refinement of whole runs

Resync inserts the given lists one by one into new collections.  A list takes
the interfaces it shares with earlier ones away from them, so that an
interface ends up in the last list that has it.
-/

namespace ContivVPP.RuleCache

open Renderer GoMap Ownership PartialLoops

variable {π : Type*}

structure IsList (h : Heap π) (r : Ref) (list : ContivRuleList π) : Prop where
  id : (h.lists r).id = list.id
  rules : (h.lists r).rules = list.rules
  priv : (h.lists r).priv = list.priv

structure Resynced (d : TrafficDirection) (h : Heap π) (set : InterfaceSet)
    (lists : List (ContivRuleList π)) (s : ResyncState π) : Prop where
  wf : WF s.heap s.lists
  ids : IDsAllocated d s.allocated s.heap s.lists
  next_le : h.next ≤ s.heap.next
  new : ∀ r ∈ s.lists.refs, h.next ≤ r
  outside : ∀ r < h.next, s.heap.lists r = h.lists r
  mem : ∀ r ∈ s.lists.refs, ∃ list ∈ lists, list.interfaces ≠ ∅ ∧
    IsList s.heap r list
  all : ∀ list ∈ lists, list.interfaces ≠ ∅ →
    ∃ r ∈ s.lists.refs, IsList s.heap r list
  owner : ∀ x list, lastWith lists x = some list →
    ∃ r, s.lists.byInterface x = some r ∧ IsList s.heap r list
  unowned : ∀ x, lastWith lists x = none → s.lists.byInterface x = none
  interfaces : s.interfaces = set ∪ allInterfaces lists

theorem resynced_nil (d : TrafficDirection) (h : Heap π)
    (set : InterfaceSet) : Resynced d h set [] ⟨h, .new, ∅, set⟩ where
  wf := wf_new h
  ids r hr := by simp at hr
  next_le := le_rfl
  new r hr := by simp at hr
  outside _ _ := rfl
  mem r hr := by simp at hr
  all list hlist := by simp at hlist
  owner x list hlast := by simp [lastWith] at hlast
  unowned x _ := by simp
  interfaces := by simp [allInterfaces]

theorem lastWith_concat (lists : List (ContivRuleList π))
    (list : ContivRuleList π) (x : String) :
    lastWith (lists ++ [list]) x =
      if x ∈ list.interfaces then some list else lastWith lists x := by
  simp [lastWith]

theorem allInterfaces_concat (lists : List (ContivRuleList π))
    (list : ContivRuleList π) :
    allInterfaces (lists ++ [list]) = allInterfaces lists ∪ list.interfaces := by
  simp [allInterfaces]

variable {x : String}

theorem mem_allInterfaces_of_lastWith {lists : List (ContivRuleList π)}
    (h : lastWith lists x ≠ none) : x ∈ allInterfaces lists := by
  induction lists using List.reverseRecOn with
  | nil => exact absurd rfl h
  | append_singleton lists list ih =>
      rw [lastWith_concat] at h
      rw [allInterfaces_concat, Finset.mem_union]
      by_cases hx : x ∈ list.interfaces
      · exact Or.inr hx
      · rw [if_neg hx] at h
        exact Or.inl (ih h)

theorem mem_of_lastWith {lists : List (ContivRuleList π)}
    {list : ContivRuleList π} (h : lastWith lists x = some list) :
    list ∈ lists ∧ x ∈ list.interfaces := by
  induction lists using List.reverseRecOn with
  | nil => simp [lastWith] at h
  | append_singleton lists list' ih =>
      rw [lastWith_concat] at h
      split_ifs at h with hx
      · cases h
        exact ⟨by simp, hx⟩
      · exact ⟨List.mem_append_left _ (ih h).1, (ih h).2⟩

theorem exists_lastWith {lists : List (ContivRuleList π)}
    {list : ContivRuleList π} (hlist : list ∈ lists)
    (hx : x ∈ list.interfaces) : ∃ list', lastWith lists x = some list' := by
  induction lists using List.reverseRecOn with
  | nil => cases hlist
  | append_singleton lists last ih =>
      rw [lastWith_concat]
      split_ifs with hlast
      · exact ⟨last, rfl⟩
      · rcases List.mem_append.mp hlist with hmem | hmem
        · exact ih hmem
        · rw [List.mem_singleton.mp hmem] at hx
          exact absurd hx hlast

variable {suffix : String}

theorem trimPrefix_eq_some {pre text : String}
    (h : trimPrefix pre text = some suffix) : text = pre ++ suffix := by
  unfold trimPrefix at h
  split at h
  next hpre =>
    obtain ⟨rest, hrest⟩ := List.isPrefixOf_iff_prefix.mp hpre
    rw [← Option.some.inj h, ← String.toList_inj, String.toList_append,
      String.toList_ofList, ← hrest, List.drop_left]
  next => simp at h

theorem insert_inserted_iff {h : Heap π} {crls : ContivRuleLists}
    (hwf : WF h crls) (o : SetOrder String) (r : Ref) :
    (ContivRuleLists.insert o r (h, crls)).1 = true ↔
      ∀ r' ∈ crls.refs, (h.lists r').rules ≠ (h.lists r).rules := by
  rcases SlotArray.insert_spec hwf.holds hwf.sorted r with
    ⟨⟨r', hr', heq⟩, hinsert⟩ | ⟨hne, _, _, _, hinsert, _⟩
  · have hrules := (compareRuleLists_eq_iff.mp heq).symm
    simp only [ContivRuleLists.insert, hinsert, Bool.false_eq_true, if_false,
      false_iff, not_forall]
    exact ⟨r', hr', fun hnot => hnot hrules⟩
  · simp only [ContivRuleLists.insert, hinsert, if_true, true_iff]
    intro r' hr' hrules
    exact hne r' hr' (compareRuleLists_eq_iff.mpr hrules.symm)

section Resync

variable {d : TrafficDirection} {h : Heap π} {set : InterfaceSet}
  {lists : List (ContivRuleList π)} {s s' : ResyncState π}
  {list : ContivRuleList π}

theorem Resynced.skip (hs : Resynced d h set lists s)
    (hempty : list.interfaces = ∅) :
    Resynced d h set (lists ++ [list]) s where
  wf := hs.wf
  ids := hs.ids
  next_le := hs.next_le
  new := hs.new
  outside := hs.outside
  mem r hr := by
    obtain ⟨list', hmem, hlist'⟩ := hs.mem r hr
    exact ⟨list', List.mem_append_left _ hmem, hlist'⟩
  all list' hlist' hne := by
    rcases List.mem_append.mp hlist' with hmem | hmem
    · exact hs.all list' hmem hne
    · rw [List.mem_singleton.mp hmem] at hne
      exact absurd hempty hne
  owner x list' hlast := by
    rw [lastWith_concat, hempty, if_neg (Finset.notMem_empty x)] at hlast
    exact hs.owner x list' hlast
  unowned x hlast := by
    rw [lastWith_concat, hempty, if_neg (Finset.notMem_empty x)] at hlast
    exact hs.unowned x hlast
  interfaces := by
    rw [allInterfaces_concat, hempty, Finset.union_empty]
    exact hs.interfaces

theorem Inserted.isList_of_ne {s s' : UpdateState π}
    (hins : Inserted s s' list) {r : Ref} (hr : r ≠ s.heap.next)
    {list' : ContivRuleList π} (h : IsList s.heap r list') :
    IsList s'.heap r list' :=
  ⟨(hins.id r hr).trans h.id, (hins.rules r hr).trans h.rules,
    (hins.priv r hr).trans h.priv⟩

theorem Inserted.isList_new {s s' : UpdateState π}
    (hins : Inserted s s' list) : IsList s'.heap s.heap.next list :=
  ⟨by rw [hins.new], by rw [hins.new], by rw [hins.new]⟩

theorem Resynced.insert (hs : Resynced d h set lists s)
    (hid : list.id = d.string ++ "-" ++ suffix) (hne : list.interfaces ≠ ∅)
    (hins : Inserted ⟨s.allocated, s.heap, s.lists⟩
      ⟨s.allocated, s'.heap, s'.lists⟩ list)
    (hallocated : s'.allocated = insert suffix s.allocated)
    (hinterfaces : s'.interfaces = s.interfaces ∪ list.interfaces) :
    Resynced d h set (lists ++ [list]) s' := by
  have hold : ∀ r ∈ s.lists.refs, r ≠ s.heap.next :=
    fun r hr => (hs.wf.allocated r hr).ne
  have hnew : IsList s'.heap s.heap.next list := hins.isList_new
  have hown : s'.lists.byInterface =
      claim s.heap.next list.interfaces s.lists.byInterface := hins.owner
  constructor
  · exact hins.head
  · intro r hr
    rw [hallocated]
    rcases (hins.refs_iff r).mp hr with rfl | hr
    · exact ⟨suffix, Finset.mem_insert_self _ _, hnew.id.trans hid⟩
    · obtain ⟨used, hused, hid'⟩ := hs.ids r hr
      exact ⟨used, Finset.mem_insert_of_mem hused,
        (hins.id r (hold r hr)).trans hid'⟩
  · exact hs.next_le.trans (hins.next ▸ Nat.le_succ _)
  · intro r hr
    rcases (hins.refs_iff r).mp hr with rfl | hr
    · exact hs.next_le
    · exact hs.new r hr
  · intro r hr
    have hlt := hr.trans_le hs.next_le
    have hout : r ∉ s.lists.refs := fun hmem =>
      absurd hr (not_lt.mpr (hs.new r hmem))
    rw [hins.outside r hlt.ne hout]
    exact hs.outside r hr
  · intro r hr
    rcases (hins.refs_iff r).mp hr with rfl | hr
    · exact ⟨list, by simp, hne, hnew⟩
    · obtain ⟨list', hmem, hne', hlist'⟩ := hs.mem r hr
      exact ⟨list', List.mem_append_left _ hmem, hne',
        hins.isList_of_ne (hold r hr) hlist'⟩
  · intro list' hlist' hne'
    rcases List.mem_append.mp hlist' with hmem | hmem
    · obtain ⟨r, hr, his⟩ := hs.all list' hmem hne'
      exact ⟨r, (hins.refs_iff r).mpr (Or.inr hr),
        hins.isList_of_ne (hold r hr) his⟩
    · rw [List.mem_singleton.mp hmem]
      exact ⟨_, (hins.refs_iff _).mpr (Or.inl rfl), hnew⟩
  · intro x list' hlast
    rw [lastWith_concat] at hlast
    rw [hown]
    split at hlast
    next hx =>
      rw [← Option.some.inj hlast]
      exact ⟨_, claim_of_mem hx, hnew⟩
    next hx =>
      obtain ⟨r, hr, his⟩ := hs.owner x list' hlast
      have hrne := hold r ((hs.wf.byInterface_iff x r).mp hr).1
      refine ⟨r, ?_, hins.isList_of_ne hrne his⟩
      rw [claim_of_notMem hx, hr]
      rw [hr]
      exact fun heq => hrne (Option.some.inj heq)
  · intro x hlast
    rw [lastWith_concat] at hlast
    rw [hown]
    split at hlast
    next hx => simp at hlast
    next hx =>
      have hnone := hs.unowned x hlast
      rw [claim_of_notMem hx, hnone]
      rw [hnone]
      simp
  · rw [hinterfaces, allInterfaces_concat, hs.interfaces, Finset.union_assoc]

theorem Resynced.id_ne_of_unused (hs : Resynced d h set lists s)
    (hid : list.id = d.string ++ "-" ++ suffix) (hused : suffix ∉ s.allocated)
    {r : Ref} (hr : r ∈ s.lists.refs) :
    (s.heap.lists r).id ≠ list.id := by
  intro heq
  obtain ⟨used, hmem, hid'⟩ := hs.ids r hr
  rw [hid', hid, id_append_inj] at heq
  exact hused (heq ▸ hmem)

theorem Resynced.step (hs : Resynced d h set lists s) (o : SetOrder String)
    (hstep : resyncList d o s list = .ok s') :
    Resynced d h set (lists ++ [list]) s' := by
  unfold resyncList at hstep
  by_cases hempty : list.interfaces = ∅
  · rw [if_pos hempty] at hstep
    injection hstep with hstep
    rw [← hstep]
    exact hs.skip hempty
  · rw [if_neg hempty] at hstep
    cases htrim : trimPrefix (d.string ++ "-") list.id with
    | none => simp [htrim] at hstep
    | some suffix =>
        simp only [htrim] at hstep
        by_cases hused : suffix ∈ s.allocated
        · simp [hused] at hstep
        · rw [if_neg hused] at hstep
          have hid := trimPrefix_eq_some htrim
          cases hinsert : ContivRuleLists.insert o (s.heap.alloc list).1
              ((s.heap.alloc list).2, s.lists) with
          | mk inserted rest =>
              cases inserted with
              | false => simp [hinsert] at hstep
              | true =>
                  simp only [hinsert] at hstep
                  injection hstep with hstep
                  have hwf := hs.wf.alloc list
                  have hrules := (insert_inserted_iff hwf o _).mp
                    (congrArg Prod.fst hinsert)
                  have hins := inserted_insertNew
                    (s := ⟨s.allocated, s.heap, s.lists⟩) hs.wf o
                    (hs.wf.lookupByID_eq_none_iff.mpr
                      fun r => hs.id_ne_of_unused hid hused)
                    (fun r hr => by
                      have hne := hrules r hr
                      rwa [alloc_of_ne (hs.wf.allocated r hr).ne,
                        show ((s.heap.alloc list).2.lists
                          (s.heap.alloc list).1) = list by
                          simp [Heap.alloc]] at hne)
                  have hnew : UpdateState.insertNew o list
                      ⟨s.allocated, s.heap, s.lists⟩ =
                      ⟨s.allocated, s'.heap, s'.lists⟩ := by
                    rw [← hstep]
                    change (⟨s.allocated, (ContivRuleLists.insert o
                      (s.heap.alloc list).1
                      ((s.heap.alloc list).2, s.lists)).2.1,
                      (ContivRuleLists.insert o (s.heap.alloc list).1
                        ((s.heap.alloc list).2, s.lists)).2.2⟩ :
                      UpdateState π) = _
                    rw [hinsert]
                  rw [hnew] at hins
                  exact hs.insert hid hempty hins (by rw [← hstep])
                    (by rw [← hstep])

theorem resynced_resyncLists (d : TrafficDirection) (o : SetOrder String)
    (h : Heap π) (set : InterfaceSet) (lists : List (ContivRuleList π))
    (hok : resyncLists d o lists ⟨h, .new, ∅, set⟩ = .ok s) :
    Resynced d h set lists s := by
  induction lists using List.reverseRecOn generalizing s with
  | nil =>
      have heq : (⟨h, .new, ∅, set⟩ : ResyncState π) = s := by
        injection hok
      rw [← heq]
      exact resynced_nil d h set
  | append_singleton lists list ih =>
      rw [resyncLists, List.foldlM_append, bind_eq_ok_iff] at hok
      obtain ⟨mid, hmid, hlast⟩ := hok
      exact (ih hmid).step o (by simpa using hlast)

theorem resyncList_ok (hs : Resynced d h set lists s) (o : SetOrder String)
    (hsuffix : trimPrefix (d.string ++ "-") list.id = some suffix)
    (hfree : suffix ∉ s.allocated)
    (hrules : ∀ list' ∈ lists, list'.rules ≠ list.rules) :
    ∃ s', resyncList d o s list = .ok s' ∧
      ∀ suffix' ∈ s'.allocated, suffix' = suffix ∨ suffix' ∈ s.allocated := by
  unfold resyncList
  by_cases hempty : list.interfaces = ∅
  · rw [if_pos hempty]
    exact ⟨s, rfl, fun _ hmem => Or.inr hmem⟩
  · have hinserted : (ContivRuleLists.insert o (s.heap.alloc list).1
        ((s.heap.alloc list).2, s.lists)).1 = true := by
      rw [insert_inserted_iff (hs.wf.alloc list) o]
      intro r hr
      obtain ⟨list', hmem, _, his⟩ := hs.mem r hr
      have hnew : (s.heap.alloc list).2.lists (s.heap.alloc list).1 = list := by
        simp [Heap.alloc]
      rw [alloc_of_ne (hs.wf.allocated r hr).ne, his.rules, hnew]
      exact hrules list' hmem
    simp only [if_neg hempty, hsuffix, if_neg hfree]
    cases hinsert : ContivRuleLists.insert o (s.heap.alloc list).1
        ((s.heap.alloc list).2, s.lists) with
    | mk inserted rest =>
        rw [hinsert] at hinserted
        subst hinserted
        exact ⟨_, rfl, fun suffix' hmem => Finset.mem_insert.mp hmem⟩

theorem resyncLists_ok (d : TrafficDirection) (o : SetOrder String)
    (h : Heap π) (set : InterfaceSet) (lists : List (ContivRuleList π))
    (hpre : ∀ list ∈ lists,
      trimPrefix (d.string ++ "-") list.id ≠ none)
    (hids : (lists.map ContivRuleList.id).Nodup)
    (hrules : (lists.map ContivRuleList.rules).Nodup) :
    ∃ s, resyncLists d o lists ⟨h, .new, ∅, set⟩ = .ok s ∧
      ∀ suffix ∈ s.allocated, ∃ list ∈ lists,
        list.id = d.string ++ "-" ++ suffix := by
  induction lists using List.reverseRecOn with
  | nil => exact ⟨_, rfl, fun suffix hmem => by simp at hmem⟩
  | append_singleton lists list ih =>
      rw [List.map_append, List.nodup_append] at hids hrules
      obtain ⟨s, hok, hallocated⟩ := ih
        (fun list' hmem => hpre list' (List.mem_append_left _ hmem))
        hids.1 hrules.1
      obtain ⟨suffix, hsuffix⟩ :=
        Option.ne_none_iff_exists'.mp (hpre list (by simp))
      have hid := trimPrefix_eq_some hsuffix
      have hfree : suffix ∉ s.allocated := by
        intro hmem
        obtain ⟨list', hlist', hid'⟩ := hallocated suffix hmem
        exact hids.2.2 list'.id (List.mem_map_of_mem hlist') list.id
          (by simp) (hid'.trans hid.symm)
      have hne : ∀ list' ∈ lists, list'.rules ≠ list.rules :=
        fun list' hlist' => hrules.2.2 list'.rules
          (List.mem_map_of_mem hlist') list.rules (by simp)
      obtain ⟨s', hstep, hallocated'⟩ := resyncList_ok
        (resynced_resyncLists d o h set lists hok) o hsuffix hfree hne
      refine ⟨s', ?_, fun suffix' hmem => ?_⟩
      · rw [resyncLists, List.foldlM_append, bind_eq_ok_iff]
        exact ⟨s, hok, by simpa using hstep⟩
      · rcases hallocated' suffix' hmem with heq | hold
        · exact ⟨list, by simp, heq ▸ hid⟩
        · obtain ⟨list', hlist', hid'⟩ := hallocated suffix' hold
          exact ⟨list', List.mem_append_left _ hlist', hid'⟩

theorem Resynced.rules_eq (hs : Resynced d h set lists s) (x : String) :
    (s.lists.byInterface x).map (fun r => (s.heap.lists r).rules) =
      (lastWith lists x).map ContivRuleList.rules := by
  cases hlast : lastWith lists x with
  | none => rw [hs.unowned x hlast, Option.map_none, Option.map_none]
  | some list =>
      obtain ⟨r, hr, his⟩ := hs.owner x list hlast
      rw [hr, Option.map_some, Option.map_some, his.rules]

end Resync

variable {o : SetOrder String} {st st' : State π}

theorem resync_spec {lists : TrafficDirection → List (ContivRuleList π)}
    (hok : resync o lists st = .ok st') :
    ∃ ingress egress, Resynced .ingress st.heap ∅ (lists .ingress) ingress ∧
      Resynced .egress ingress.heap ingress.interfaces (lists .egress) egress ∧
      st' = ⟨egress.heap,
        ⟨perDirection ingress.lists egress.lists, egress.interfaces,
          perDirection ingress.allocated egress.allocated⟩⟩ := by
  rw [resync, bind_eq_ok_iff] at hok
  obtain ⟨ingress, hingress, hok⟩ := hok
  rw [bind_eq_ok_iff] at hok
  obtain ⟨egress, hegress, hok⟩ := hok
  injection hok with hok
  exact ⟨ingress, egress, resynced_resyncLists _ _ _ _ _ hingress,
    resynced_resyncLists _ _ _ _ _ hegress, hok.symm⟩

theorem resync_ok (o : SetOrder String)
    {lists : TrafficDirection → List (ContivRuleList π)} (st : State π)
    (hpre : ∀ d, ∀ list ∈ lists d,
      trimPrefix (d.string ++ "-") list.id ≠ none)
    (hids : ∀ d, ((lists d).map ContivRuleList.id).Nodup)
    (hrules : ∀ d, ((lists d).map ContivRuleList.rules).Nodup) :
    ∃ st', resync o lists st = .ok st' := by
  obtain ⟨ingress, hin, _⟩ := resyncLists_ok .ingress o st.heap ∅
    (lists .ingress) (hpre .ingress) (hids .ingress) (hrules .ingress)
  obtain ⟨egress, hout, _⟩ := resyncLists_ok .egress o ingress.heap
    ingress.interfaces (lists .egress) (hpre .egress) (hids .egress)
    (hrules .egress)
  simp only [resync, bind, Except.bind, hin, hout]
  exact ⟨_, rfl⟩

theorem refines_resync {lists : TrafficDirection → List (ContivRuleList π)}
    (hok : resync o lists st = .ok st') (spec : Spec) :
    Refines st' (spec.step (.resync lists o)) := by
  obtain ⟨ingress, egress, hin, hout, rfl⟩ := resync_spec hok
  -- The second half leaves the lists of the first alone.
  have hold : ∀ r ∈ ingress.lists.refs,
      egress.heap.lists r = ingress.heap.lists r :=
    fun r hr => hout.outside r (hin.wf.allocated r hr)
  have hapart : ∀ r ∈ ingress.lists.refs, r ∉ egress.lists.refs :=
    fun r hr hr' => absurd (hin.wf.allocated r hr) (not_lt.mpr (hout.new r hr'))
  refine ⟨⟨?_, ?_, ?_⟩, ?_, ?_⟩
  · intro d
    cases d with
    | ingress =>
        exact hin.wf.congr hout.next_le fun r hr => by
          rw [hold r hr]
          exact ⟨rfl, rfl, rfl⟩
    | egress => exact hout.wf
  · intro d
    cases d with
    | ingress =>
        intro r hr
        rw [hold r hr]
        exact hin.ids r hr
    | egress => exact hout.ids
  · intro d d' hne r hr hr'
    cases d <;> cases d'
    · exact hne rfl
    · exact hapart r hr hr'
    · exact hapart r hr' hr
    · exact hne rfl
  · intro d x
    cases d with
    | ingress =>
        refine Eq.trans ?_ (hin.rules_eq x)
        refine Option.map_congr fun r hr => ?_
        rw [hold r ((hin.wf.byInterface_iff x r).mp hr).1]
    | egress => exact hout.rules_eq x
  · change egress.interfaces = _
    rw [hout.interfaces, hin.interfaces, Finset.empty_union]
    rfl

structure HasLists (st : State π)
    (lists : TrafficDirection → List (ContivRuleList π)) : Prop where
  mem : ∀ d, ∀ r ∈ (st.cache.lists d).refs, ∃ list ∈ lists d,
    list.interfaces ≠ ∅ ∧ IsList st.heap r list
  all : ∀ d, ∀ list ∈ lists d, list.interfaces ≠ ∅ →
    ∃ r ∈ (st.cache.lists d).refs, IsList st.heap r list

theorem hasLists_resync {lists : TrafficDirection → List (ContivRuleList π)}
    (hok : resync o lists st = .ok st') : HasLists st' lists := by
  obtain ⟨ingress, egress, hin, hout, rfl⟩ := resync_spec hok
  have hold : ∀ r ∈ ingress.lists.refs, ∀ list,
      IsList egress.heap r list ↔ IsList ingress.heap r list := by
    intro r hr list
    have hsame := hout.outside r (hin.wf.allocated r hr)
    constructor <;> intro his <;>
      exact ⟨hsame ▸ his.id, hsame ▸ his.rules, hsame ▸ his.priv⟩
  constructor
  · intro d r hr
    cases d with
    | ingress =>
        obtain ⟨list, hmem, hne, his⟩ := hin.mem r hr
        exact ⟨list, hmem, hne, (hold r hr list).mpr his⟩
    | egress => exact hout.mem r hr
  · intro d list hmem hne
    cases d with
    | ingress =>
        obtain ⟨r, hr, his⟩ := hin.all list hmem hne
        exact ⟨r, hr, (hold r hr list).mpr his⟩
    | egress => exact hout.all list hmem hne

theorem refines_run (events : List (Event π)) (hok : run events = .ok st) :
    Refines st (Spec.run events) := by
  induction events using List.reverseRecOn generalizing st with
  | nil =>
      injection hok with hok
      rw [← hok]
      exact refines_init
  | append_singleton events event ih =>
      rw [run, List.foldlM_append, bind_eq_ok_iff] at hok
      obtain ⟨mid, hmid, hstep⟩ := hok
      have hspec : Spec.run (events ++ [event]) =
          (Spec.run events).step event := by
        simp [Spec.run]
      have hrefines := ih hmid
      rw [hspec]
      have hstep : step mid event = .ok st := by simpa using hstep
      cases event with
      | commit calls orders =>
          injection hstep with hstep
          rw [← hstep]
          exact hrefines.commit calls orders
      | abandon calls =>
          injection hstep with hstep
          rw [← hstep]
          exact hrefines.abandon calls
      | resync lists order => exact refines_resync hstep _

theorem lastCall_eq_none {calls : List UpdateCall}
    (h : ∀ call ∈ calls, call.ifName ≠ x) (d : TrafficDirection) :
    lastCall calls d x = none := by
  induction calls using List.reverseRecOn with
  | nil => rfl
  | append_singleton calls call ih =>
      have hne : x ≠ call.ifName := (h call (by simp)).symm
      rw [lastCall, List.foldl_append, List.foldl_cons, List.foldl_nil,
        Function.update_of_ne hne]
      exact ih fun call' hcall' => h call' (List.mem_append_left _ hcall')

theorem Refines.commit_unmentioned {spec : Spec} (h : Refines st spec)
    {calls : List UpdateCall} (hx : ∀ call ∈ calls, call.ifName ≠ x)
    (orders : TrafficDirection → SetOrder String) (d : TrafficDirection) :
    ((commitTxn orders (calls.foldl update (st, newTxn))).cache.lists
        d).byInterface x = (st.cache.lists d).byInterface x ∧
      ∀ r, (st.cache.lists d).byInterface x = some r →
        ((commitTxn orders (calls.foldl update (st, newTxn))).heap.lists
          r).id = (st.heap.lists r).id ∧
        ((commitTxn orders (calls.foldl update (st, newTxn))).heap.lists
          r).rules = (st.heap.lists r).rules := by
  have hnew := inTxn_newTxn h.consistent
  obtain ⟨howner, hsame⟩ := ((hnew.foldl_update calls).lookup_commitTxn
    orders d x).2 (lastCall_eq_none hx d)
  have hlists := (foldl_update_cache (s := (st, newTxn)) calls).1
  rw [hlists] at howner hsame
  refine ⟨howner, fun r hr => ?_⟩
  have hkept := hnew.lists_foldl_update calls
    (((h.consistent.wf d).byInterface_iff x r).mp hr).1
  have hlist := hsame r hr
  rw [hkept] at hlist
  exact hlist

/-- Every run of the cache remembers the rules that each interface was given
last, shares lists between interfaces with equal rules only, and leaves the
lists of interfaces alone that a transaction does not mention. -/
theorem run_remembers (events : List (Event π)) (st : State π)
    (hok : run events = .ok st) :
    (∀ d x, match (Spec.run events).rules d x with
      | none => st.cache.lookupByInterface x d = none
      | some rules => ∃ r, st.cache.lookupByInterface x d = some r ∧
          compareRuleLists (st.heap.lists r).rules rules = .eq) ∧
      (∀ d x y r r', st.cache.lookupByInterface x d = some r →
        st.cache.lookupByInterface y d = some r' →
        ((st.heap.lists r).id = (st.heap.lists r').id ↔
          compareRuleLists (st.heap.lists r).rules (st.heap.lists r').rules =
            .eq)) ∧
      st.cache.allInterfaces = (Spec.run events).interfaces ∧
      ∀ calls orders st', run (events ++ [.commit calls orders]) = .ok st' →
        ∀ d x, (∀ call ∈ calls, call.ifName ≠ x) →
          st'.cache.lookupByInterface x d = st.cache.lookupByInterface x d ∧
          ∀ r, st.cache.lookupByInterface x d = some r →
            (st'.heap.lists r).id = (st.heap.lists r).id ∧
            (st'.heap.lists r).rules = (st.heap.lists r).rules := by
  have hrefines := refines_run events hok
  refine ⟨?_, ?_, hrefines.interfaces, ?_⟩
  · intro d x
    have hrules := hrefines.rules d x
    cases hspec : (Spec.run events).rules d x with
    | none =>
        rw [hspec, Option.map_eq_none_iff] at hrules
        exact hrules
    | some rules =>
        rw [hspec, Option.map_eq_some_iff] at hrules
        obtain ⟨r, hr, heq⟩ := hrules
        exact ⟨r, hr, compareRuleLists_eq_iff.mpr heq⟩
  · intro d x y r r' hr hr'
    have hwf := hrefines.consistent.wf d
    have hmem := ((hwf.byInterface_iff x r).mp hr).1
    have hmem' := ((hwf.byInterface_iff y r').mp hr').1
    rw [compareRuleLists_eq_iff]
    constructor
    · intro hid
      rw [hwf.eq_of_id hmem hmem' hid]
    · intro hrules
      rw [hwf.eq_of_rules hmem hmem' hrules]
  · intro calls orders st' hok' d x hx
    rw [run, List.foldlM_append, bind_eq_ok_iff] at hok'
    obtain ⟨mid, hmid, hstep⟩ := hok'
    have hmid' : run events = .ok mid := hmid
    rw [hok] at hmid'
    injection hmid' with hmid'
    rw [← hmid'] at hstep
    have hcommit : commitTxn orders (calls.foldl update (st, newTxn)) = st' := by
      injection hstep
    rw [← hcommit]
    exact hrefines.commit_unmentioned hx orders d

/-! ## A run -/

def longerSuffix : SuffixSource where
  next used := String.ofList (List.replicate (used.sup String.length + 1) 'A')
  fresh used hmem := by
    have hle := Finset.le_sup (f := String.length) hmem
    rw [String.length_ofList, List.length_replicate] at hle
    omega

def someChoices : Choices := ⟨.sorted, longerSuffix⟩

def denyAll : UpdateCall :=
  ⟨"tap1", perDirection (some denyRest) none, fun _ => someChoices⟩

def dumped : TrafficDirection → List (ContivRuleList Unit) :=
  perDirection [⟨"ingress-1F", some [], {"tap2"}, none⟩] []

def resyncAndUpdate : List (Event Unit) :=
  [.resync dumped .sorted, .commit [denyAll] fun _ => .sorted]

theorem run_remembers_resyncAndUpdate : ∃ st, run resyncAndUpdate = .ok st ∧
      (∃ r, st.cache.lookupByInterface "tap1" .ingress = some r ∧
        compareRuleLists (st.heap.lists r).rules (some denyRest) = .eq) ∧
      ∃ r, st.cache.lookupByInterface "tap2" .ingress = some r ∧
        compareRuleLists (st.heap.lists r).rules (some []) = .eq := by
  obtain ⟨st, hok⟩ : ∃ st, run resyncAndUpdate = .ok st := ⟨_, rfl⟩
  obtain ⟨hrules, _⟩ := run_remembers resyncAndUpdate st hok
  exact ⟨st, hok, hrules .ingress "tap1", hrules .ingress "tap2"⟩

end ContivVPP.RuleCache
