import ContivVPP.RuleCacheResync

/-!
# Changes and unused lists of the rule cache

`Changes` and `Commit` walk over the lists of a transaction in two different
ways.  Both describe the same transition: a list that the transaction has gets
the interfaces it has there, and every other list of the cache keeps its own.

A list that loses its last interface is looked for in the cache by its copy in
the transaction.  The copy is not there, so the list stays, and the cache grows
with every set of rules that goes out of use.
-/

namespace ContivVPP.RuleCache

open Renderer GoMap Ownership PartialLoops

variable {π : Type*}

/-! ## Interfaces by ID -/

/-- The interfaces of the list with an ID.  A list that the cache does not have
counts as one without interfaces. -/
def State.interfacesOf (st : State π) (d : TrafficDirection) (id : String) :
    InterfaceSet :=
  match (st.cache.lists d).lookupByID id with
  | some r => (st.heap.lists r).interfaces
  | none => ∅

variable {st : State π} {r : Ref}

theorem interfacesOf_of_mem {d : TrafficDirection}
    (hwf : WF st.heap (st.cache.lists d)) (hr : r ∈ (st.cache.lists d).refs) :
    st.interfacesOf d (st.heap.lists r).id = (st.heap.lists r).interfaces := by
  have hlookup : (st.cache.lists d).lookupByID (st.heap.lists r).id =
      some r := (hwf.byID_iff _ r).mpr ⟨hr, rfl⟩
  simp only [State.interfacesOf, hlookup]

section Txn

variable {s : State π × ContivRuleCacheTxn}
  {upd : TrafficDirection → String → Option Rules} {d : TrafficDirection}

theorem InTxn.interfacesOf_commitTxn (hin : InTxn s upd)
    (orders : TrafficDirection → SetOrder String)
    (hr : r ∈ (s.2.lists d).refs) :
    (RuleCache.commitTxn orders s).interfacesOf d (s.1.heap.lists r).id =
      (s.1.heap.lists r).interfaces := by
  have hwf := (hin.consistent_commitTxn orders).wf d
  by_cases hempty : (s.1.heap.lists r).interfaces = ∅
  · rw [hempty]
    by_contra hne
    -- A list with this ID and an interface would have to carry the data of
    -- some other list with the same ID.
    cases hlookup : ((RuleCache.commitTxn orders s).cache.lists
        d).lookupByID (s.1.heap.lists r).id with
    | none => simp only [State.interfacesOf, hlookup, not_true] at hne
    | some q =>
        simp only [State.interfacesOf, hlookup] at hne
        obtain ⟨hq, hid⟩ := (hwf.byID_iff _ q).mp hlookup
        obtain ⟨r', hcurrent, hcarries⟩ := hin.carries orders hq hne
        have hid' := hid.symm.trans hcarries.id
        rcases hcurrent with hr' | ⟨_, hnot⟩
        · obtain rfl := (hin.pending d).headWF.eq_of_id hr hr' hid'
          exact hne (hcarries.interfaces.trans hempty)
        · exact hnot ⟨r, hr, hid'⟩
  · obtain ⟨q, hcarries⟩ := hin.exists_carries orders (Or.inl hr) hempty
    rw [← hcarries.id, interfacesOf_of_mem hwf hcarries.mem]
    exact hcarries.interfaces

theorem InTxn.interfacesOf_commitTxn_other (hin : InTxn s upd)
    (orders : TrafficDirection → SetOrder String) {id : String}
    (hid : ∀ r ∈ (s.2.lists d).refs, (s.1.heap.lists r).id ≠ id) :
    (RuleCache.commitTxn orders s).interfacesOf d id = s.1.interfacesOf d id := by
  obtain ⟨h, h', hc⟩ := hin.commitTxn orders d
  have hwf := (hin.consistent_commitTxn orders).wf d
  have hbase : WF s.1.heap (s.1.cache.lists d) := (hin.pending d).baseWF
  cases hlookup : (s.1.cache.lists d).lookupByID id with
  | some b =>
      obtain ⟨hb, rfl⟩ := (hbase.byID_iff _ b).mp hlookup
      have hnot : ¬ Covered s.1.heap (s.2.lists d) b := by
        rintro ⟨r, hr, heq⟩
        exact hid r hr heq
      have hcarries := hc.carries_uncovered hin hwf hb hnot
      rw [interfacesOf_of_mem hbase hb, ← hcarries.id,
        interfacesOf_of_mem hwf hcarries.mem, hcarries.interfaces]
  | none =>
      have hnone : ((RuleCache.commitTxn orders s).cache.lists
          d).lookupByID id = none := by
        refine hwf.lookupByID_eq_none_iff.mpr ?_
        intro q hq heq
        rw [(hc.rules hq).1] at heq
        rcases (hc.committed.refs_iff q).mp hq with hold | hnew
        · exact hbase.lookupByID_eq_none_iff.mp hlookup q hold heq
        · exact hid q hnew.1 heq
      simp only [State.interfacesOf, hlookup, hnone]

end Txn

/-! ## What Changes returns -/

/-- `Changes`, with the cache and the transaction as it leaves them. -/
def changes (s : State π × ContivRuleCacheTxn) :
    (TrafficDirection → List TxnChange) × State π × ContivRuleCacheTxn :=
  (fun d => getChanges s.1.heap (s.2.lists d) (s.1.cache.lists d), s)

theorem getChange_eq (st : State π) (d : TrafficDirection) (r : Ref) :
    getChange st.heap (st.cache.lists d) r =
      if (st.heap.lists r).interfaces =
          st.interfacesOf d (st.heap.lists r).id then none
      else some ⟨r, st.interfacesOf d (st.heap.lists r).id⟩ := by
  unfold getChange State.interfacesOf
  cases (st.cache.lists d).lookupByID (st.heap.lists r).id <;> rfl

theorem mem_changes_iff {s : State π × ContivRuleCacheTxn}
    {d : TrafficDirection} {change : TxnChange} :
    change ∈ (changes s).1 d ↔ change.list ∈ (s.2.lists d).refs ∧
      change.previousInterfaces =
        s.1.interfacesOf d (s.1.heap.lists change.list).id ∧
      (s.1.heap.lists change.list).interfaces ≠
        change.previousInterfaces := by
  simp only [changes, getChanges, List.mem_filterMap, getChange_eq]
  constructor
  · intro h
    obtain ⟨r, hr, hchange⟩ := h
    split_ifs at hchange with hsame
    obtain rfl := Option.some.inj hchange
    exact ⟨hr, rfl, hsame⟩
  · intro h
    obtain ⟨hr, hprevious, hne⟩ := h
    refine ⟨change.list, hr, ?_⟩
    rw [← hprevious, if_neg hne]

structure Describes (st st' : State π) (d : TrafficDirection) (h : Heap π)
    (changes : List TxnChange) : Prop where
  once : (changes.map fun change => (h.lists change.list).id).Nodup
  changed_iff : ∀ id, id ∈ changes.map (fun change => (h.lists change.list).id) ↔
      st.interfacesOf d id ≠ st'.interfacesOf d id
  previous : ∀ change ∈ changes, change.previousInterfaces =
    st.interfacesOf d (h.lists change.list).id
  interfaces : ∀ change ∈ changes, (h.lists change.list).interfaces =
    st'.interfacesOf d (h.lists change.list).id
  rules_before : ∀ change ∈ changes, ∀ r,
    (st.cache.lists d).lookupByID (h.lists change.list).id = some r →
      (h.lists change.list).rules = (st.heap.lists r).rules
  rules_after : ∀ change ∈ changes, ∃ r,
    (st'.cache.lists d).lookupByID (h.lists change.list).id = some r ∧
      (h.lists change.list).rules = (st'.heap.lists r).rules

section Txn

variable {s : State π × ContivRuleCacheTxn}
  {upd : TrafficDirection → String → Option Rules} {d : TrafficDirection}

theorem InTxn.nodup_changes (hin : InTxn s upd) : (((changes s).1 d).map
      fun change => (s.1.heap.lists change.list).id).Nodup := by
  have hids := (hin.pending d).headWF.pairwise_ne ContivRuleList.id
    fun _ hr _ hr' => (hin.pending d).headWF.eq_of_id hr hr'
  rw [List.Nodup, List.pairwise_map]
  refine List.Pairwise.filterMap _ ?_ hids
  intro r r' hne change hchange change' hchange' heq
  rw [getChange_eq] at hchange hchange'
  split_ifs at hchange hchange'
  obtain rfl := Option.some.inj hchange
  obtain rfl := Option.some.inj hchange'
  exact hne heq.symm

theorem InTxn.rules_changed (hin : InTxn s upd)
    (orders : TrafficDirection → SetOrder String) {change : TxnChange}
    (hchange : change ∈ (changes s).1 d) :
    ∃ r, ((RuleCache.commitTxn orders s).cache.lists d).lookupByID
        (s.1.heap.lists change.list).id = some r ∧
      (s.1.heap.lists change.list).rules =
        ((RuleCache.commitTxn orders s).heap.lists r).rules := by
  have hwf := (hin.consistent_commitTxn orders).wf d
  obtain ⟨hr, hprevious, hne⟩ := mem_changes_iff.mp hchange
  by_cases hempty : (s.1.heap.lists change.list).interfaces = ∅
  · -- The list had interfaces, so the cache had it, and it still does.
    cases hlookup : (s.1.cache.lists d).lookupByID
        (s.1.heap.lists change.list).id with
    | none =>
        simp only [State.interfacesOf, hlookup] at hprevious
        exact absurd (hempty.trans hprevious.symm) hne
    | some b =>
        obtain ⟨h, h', hc⟩ := hin.commitTxn orders d
        obtain ⟨hb, hid⟩ := ((hin.pending d).baseWF.byID_iff _ b).mp hlookup
        have hmem := (hc.committed.refs_iff b).mpr (Or.inl hb)
        obtain ⟨hid', hrules⟩ := hc.rules hmem
        refine ⟨b, (hwf.byID_iff _ b).mpr ⟨hmem, hid'.trans hid⟩, ?_⟩
        rw [hrules]
        exact (((hin.pending d).id_iff _ hr b hb).mp hid).symm
  · obtain ⟨q, hcarries⟩ := hin.exists_carries orders (Or.inl hr) hempty
    exact ⟨q, (hwf.byID_iff _ q).mpr ⟨hcarries.mem, hcarries.id⟩,
      hcarries.rules.symm⟩

theorem InTxn.describes (hin : InTxn s upd)
    (orders : TrafficDirection → SetOrder String) :
    Describes s.1 (RuleCache.commitTxn orders s) d s.1.heap
      ((changes s).1 d) where
  once := hin.nodup_changes
  changed_iff id := by
    rw [List.mem_map]
    constructor
    · intro h
      obtain ⟨change, hchange, rfl⟩ := h
      obtain ⟨hr, hprevious, hne⟩ := mem_changes_iff.mp hchange
      rw [hin.interfacesOf_commitTxn orders hr, ← hprevious]
      exact hne.symm
    · intro hne
      by_cases hid : ∃ r ∈ (s.2.lists d).refs, (s.1.heap.lists r).id = id
      · obtain ⟨r, hr, rfl⟩ := hid
        rw [hin.interfacesOf_commitTxn orders hr] at hne
        exact ⟨⟨r, _⟩, mem_changes_iff.mpr ⟨hr, rfl, hne.symm⟩, rfl⟩
      · simp only [not_exists, not_and] at hid
        rw [hin.interfacesOf_commitTxn_other orders hid] at hne
        exact absurd rfl hne
  previous change hchange := (mem_changes_iff.mp hchange).2.1
  interfaces change hchange :=
    (hin.interfacesOf_commitTxn orders (mem_changes_iff.mp hchange).1).symm
  rules_before change hchange b hlookup := by
    obtain ⟨hb, hid⟩ := ((hin.pending d).baseWF.byID_iff _ b).mp hlookup
    have hr := (mem_changes_iff.mp hchange).1
    exact (((hin.pending d).id_iff _ hr b hb).mp hid).symm
  rules_after _ hchange := hin.rules_changed orders hchange

end Txn

theorem lists_inTxn (h : Consistent st) (calls : List UpdateCall)
    {d : TrafficDirection} {id : String}
    (hlookup : (st.cache.lists d).lookupByID id = some r) :
    (calls.foldl update (st, newTxn)).1.heap.lists r = st.heap.lists r :=
  (inTxn_newTxn h).lists_foldl_update calls (((h.wf d).byID_iff _ r).mp hlookup).1

theorem interfacesOf_inTxn (h : Consistent st) (calls : List UpdateCall)
    (d : TrafficDirection) (id : String) :
    (calls.foldl update (st, newTxn)).1.interfacesOf d id =
      st.interfacesOf d id := by
  have hlists := (foldl_update_cache (s := (st, newTxn)) calls).1
  simp only [State.interfacesOf, hlists]
  cases hlookup : (st.cache.lists d).lookupByID id with
  | none => rfl
  | some r =>
      simp only
      rw [lists_inTxn h calls hlookup]

/-- In every cache that a run leads to, `Changes` describes what `Commit` then
does, whatever the transaction updates, and leaves everything as it is. -/
theorem changes_describe_commit (events : List (Event π)) (st : State π)
    (hok : run events = .ok st) (calls : List UpdateCall)
    (orders : TrafficDirection → SetOrder String) :
    let s := calls.foldl update (st, newTxn)
    (∀ d, Describes st (commitTxn orders s) d s.1.heap ((changes s).1 d)) ∧
      (changes s).2 = s := by
  intro s
  refine ⟨fun d => ?_, rfl⟩
  have hst := (refines_run events hok).consistent
  have hdescribes := ((inTxn_newTxn hst).foldl_update calls).describes
    orders (d := d)
  constructor
  · exact hdescribes.once
  · intro id
    rw [hdescribes.changed_iff, interfacesOf_inTxn hst]
  · intro change hchange
    rw [hdescribes.previous change hchange, interfacesOf_inTxn hst]
  · exact hdescribes.interfaces
  · intro change hchange r hlookup
    rw [← lists_inTxn hst calls hlookup]
    refine hdescribes.rules_before change hchange r ?_
    rw [(foldl_update_cache (s := (st, newTxn)) calls).1]
    exact hlookup
  · exact hdescribes.rules_after

theorem changes_describe_commit_resyncAndUpdate :
    ∃ st, run resyncAndUpdate = .ok st ∧
      Describes st (commitTxn (fun _ => .sorted)
          (update (st, newTxn) { denyAll with ifName := "tap2" })) .ingress
        (update (st, newTxn) { denyAll with ifName := "tap2" }).1.heap
        ((changes (update (st, newTxn)
          { denyAll with ifName := "tap2" })).1 .ingress) := by
  obtain ⟨st, hok⟩ : ∃ st, run resyncAndUpdate = .ok st := ⟨_, rfl⟩
  exact ⟨st, hok, (changes_describe_commit resyncAndUpdate st hok
    [{ denyAll with ifName := "tap2" }] fun _ => .sorted).1 .ingress⟩

/-! ## Lists in use -/

/-- Every list has an interface, so there are no more lists than known
interfaces. -/
structure InUse (st : State π) : Prop where
  used : ∀ d, ∀ r ∈ (st.cache.lists d).refs, (st.heap.lists r).interfaces.Nonempty
  bounded : ∀ d, (st.cache.lists d).refs.length ≤ st.cache.allInterfaces.card

theorem mem_of_lastCall {calls : List UpdateCall} {d : TrafficDirection}
    {x : String} (h : lastCall calls d x ≠ none) (set : InterfaceSet) :
    x ∈ calls.foldl (fun set call => insert call.ifName set) set := by
  by_contra hnot
  refine h (lastCall_eq_none (fun call hcall heq => hnot ?_) d)
  clear h hnot
  induction calls generalizing set with
  | nil => cases hcall
  | cons call' calls ih =>
      rcases List.mem_cons.mp hcall with rfl | hcall
      · rw [List.foldl_cons, foldl_insert_eq, ← heq]
        exact Finset.mem_union_left _ (Finset.mem_insert_self _ _)
      · exact ih (insert call'.ifName set) hcall

theorem Spec.mem_interfaces (events : List (Event π)) {d : TrafficDirection}
    {x : String} (h : (Spec.run events).rules d x ≠ none) :
    x ∈ (Spec.run events).interfaces := by
  induction events using List.reverseRecOn with
  | nil => exact absurd rfl h
  | append_singleton events event ih =>
      rw [Spec.run, List.foldl_append, List.foldl_cons, List.foldl_nil] at h ⊢
      cases event with
      | commit calls orders =>
          change (lastCall calls d x).or ((Spec.run events).rules d x) ≠ none at h
          change x ∈ calls.foldl (fun set call => insert call.ifName set)
            (Spec.run events).interfaces
          by_cases hcall : lastCall calls d x = none
          · rw [hcall, Option.none_or] at h
            rw [foldl_insert_eq]
            exact Finset.mem_union_left _ (ih h)
          · exact mem_of_lastCall hcall _
      | abandon calls => exact ih h
      | resync lists order =>
          change (lastWith (lists d) x).map ContivRuleList.rules ≠ none at h
          change x ∈ allInterfaces (lists .ingress) ∪
            allInterfaces (lists .egress)
          have hx : x ∈ allInterfaces (lists d) := by
            apply mem_allInterfaces_of_lastWith
            intro hnone
            rw [hnone] at h
            exact h rfl
          cases d with
          | ingress => exact Finset.mem_union_left _ hx
          | egress => exact Finset.mem_union_right _ hx

theorem WF.length_refs_le {h : Heap π} {crls : ContivRuleLists}
    (hwf : WF h crls) {known : InterfaceSet}
    (hused : ∀ r ∈ crls.refs, (h.lists r).interfaces.Nonempty)
    (hknown : ∀ r ∈ crls.refs, (h.lists r).interfaces ⊆ known) :
    crls.refs.length ≤ known.card := by
  choose! first hfirst using hused
  rw [← List.toFinset_card_of_nodup hwf.nodup]
  refine Finset.card_le_card_of_injOn first ?_ ?_
  · intro r hr
    have hr := List.mem_toFinset.mp hr
    exact hknown r hr (hfirst r hr)
  · intro r hr r' hr' heq
    have hr := List.mem_toFinset.mp hr
    have hr' := List.mem_toFinset.mp hr'
    have hx := hfirst r hr
    rw [heq] at hx
    exact hwf.eq_of_interface hr hr' hx (hfirst r' hr')

theorem Refines.rules_iff {spec : Spec} (h : Refines st spec)
    {d : TrafficDirection} (hr : r ∈ (st.cache.lists d).refs) {x : String} :
    spec.rules d x = some (st.heap.lists r).rules ↔
      x ∈ (st.heap.lists r).interfaces := by
  have hwf := h.consistent.wf d
  rw [← h.rules d x, Option.map_eq_some_iff]
  constructor
  · intro hx
    obtain ⟨r', howner, hrules⟩ := hx
    obtain ⟨hr', hx⟩ := (hwf.byInterface_iff x r').mp howner
    rwa [hwf.eq_of_rules hr' hr hrules] at hx
  · intro hx
    exact ⟨r, (hwf.byInterface_iff x r).mpr ⟨hr, hx⟩, rfl⟩

theorem inUse_iff {events : List (Event π)} (hok : run events = .ok st) :
    InUse st ↔ ∀ d, ∀ r ∈ (st.cache.lists d).refs,
      ∃ x, (Spec.run events).rules d x = some (st.heap.lists r).rules := by
  have h := refines_run events hok
  constructor
  · intro hused d r hr
    obtain ⟨x, hx⟩ := hused.used d r hr
    exact ⟨x, (h.rules_iff hr).mpr hx⟩
  · intro hrules
    have hused : ∀ d, ∀ r ∈ (st.cache.lists d).refs,
        (st.heap.lists r).interfaces.Nonempty := by
      intro d r hr
      obtain ⟨x, hx⟩ := hrules d r hr
      exact ⟨x, (h.rules_iff hr).mp hx⟩
    refine ⟨hused, fun d => ?_⟩
    refine (h.consistent.wf d).length_refs_le (hused d) ?_
    intro r hr x hx
    have hx := (h.rules_iff hr).mpr hx
    rw [ContivRuleCache.allInterfaces, h.interfaces]
    exact Spec.mem_interfaces events (by rw [hx]; simp)

section Txn

variable {s : State π × ContivRuleCacheTxn}
  {upd : TrafficDirection → String → Option Rules} {d : TrafficDirection}

theorem InTxn.refs_commitTxn (hin : InTxn s upd)
    (orders : TrafficDirection → SetOrder String) {q : Ref} :
    q ∈ ((RuleCache.commitTxn orders s).cache.lists d).refs →
      q ∈ (s.1.cache.lists d).refs ∨ ((RuleCache.commitTxn orders s).heap.lists
          q).interfaces.Nonempty := by
  intro hq
  obtain ⟨h, h', hc⟩ := hin.commitTxn orders d
  have hwf := (hin.consistent_commitTxn orders).wf d
  rcases (hc.committed.refs_iff q).mp hq with hold | ⟨hr, hnone, hne⟩
  · exact Or.inl hold
  · right
    rw [hc.before q (Or.inr hr)] at hnone hne
    have htarget : target s.1.heap (s.1.cache.lists d) q = q := by
      rw [target, hnone, Option.getD_none]
    have hcarries := hc.carries_target hin hwf hr hne
    rw [htarget] at hcarries
    rw [hcarries.interfaces]
    exact Finset.nonempty_iff_ne_empty.mpr hne

end Txn

/-- After a commit all lists are in use, and there are no more of them than
known interfaces, just if each list that the cache had before has rules which
some interface has afterwards. -/
theorem commit_inUse_iff (events : List (Event π)) (st : State π)
    (hok : run events = .ok st) (calls : List UpdateCall)
    (orders : TrafficDirection → SetOrder String) :
    InUse (commitTxn orders (calls.foldl update (st, newTxn))) ↔
      ∀ d, ∀ r ∈ (st.cache.lists d).refs, ∃ x,
        ((Spec.run events).step (.commit calls orders : Event π)).rules d x =
          some (st.heap.lists r).rules := by
  have hst := (refines_run events hok).consistent
  have hin := (inTxn_newTxn hst).foldl_update calls
  have hcache := (foldl_update_cache (s := (st, newTxn)) calls).1
  have hok' : run (events ++ [.commit calls orders]) =
      .ok (commitTxn orders (calls.foldl update (st, newTxn))) := by
    rw [run, List.foldlM_append, bind_eq_ok_iff]
    exact ⟨st, hok, rfl⟩
  have hspec : Spec.run (events ++ [.commit calls orders]) =
      (Spec.run events).step (.commit calls orders : Event π) := by
    simp [Spec.run]
  have hkept : ∀ d, ∀ r ∈ (st.cache.lists d).refs,
      r ∈ ((commitTxn orders (calls.foldl update (st, newTxn))).cache.lists
        d).refs ∧
      ((commitTxn orders (calls.foldl update (st, newTxn))).heap.lists
        r).rules = (st.heap.lists r).rules := by
    intro d r hr
    obtain ⟨h, h', hc⟩ := hin.commitTxn orders d
    rw [← (inTxn_newTxn hst).lists_foldl_update calls hr]
    rw [show st.cache.lists = _ from hcache.symm] at hr
    have hmem := (hc.committed.refs_iff r).mpr (Or.inl hr)
    exact ⟨hmem, (hc.rules hmem).2⟩
  rw [inUse_iff hok', hspec]
  constructor
  · intro hrules d r hr
    obtain ⟨hmem, heq⟩ := hkept d r hr
    rw [← heq]
    exact hrules d r hmem
  · intro hrules d q hq
    rcases hin.refs_commitTxn orders hq with hold | ⟨x, hx⟩
    · rw [hcache] at hold
      rw [(hkept d q hold).2]
      exact hrules d q hold
    · refine ⟨x, ?_⟩
      rw [← hspec]
      exact ((refines_run _ hok').rules_iff hq).mpr hx

def exchanged : List UpdateCall :=
  [⟨"tap1", perDirection (some []) none, fun _ => someChoices⟩,
    ⟨"tap2", perDirection (some denyRest) none, fun _ => someChoices⟩]

def afterUpdate : State Unit :=
  match run resyncAndUpdate with
  | .ok st => st
  | .error _ => init

theorem commit_inUse_exchanged :
    (afterUpdate.cache.lists .ingress).refs.length = 2 ∧
    InUse (commitTxn (fun _ => .sorted)
      (exchanged.foldl update (afterUpdate, newTxn))) := by
  have hrules : ∀ d, ∀ r ∈ (afterUpdate.cache.lists d).refs,
      ∃ x ∈ ["tap1", "tap2"], ((Spec.run resyncAndUpdate).step
        (.commit exchanged fun _ => .sorted : Event Unit)).rules d x =
          some (afterUpdate.heap.lists r).rules := by
    intro d
    cases d <;> decide +kernel
  refine ⟨by decide +kernel, (commit_inUse_iff resyncAndUpdate afterUpdate rfl
    exchanged fun _ => .sorted).mpr fun d r hr => ?_⟩
  obtain ⟨x, _, hx⟩ := hrules d r hr
  exact ⟨x, hx⟩

def replacedRules : List (Event Unit) :=
  [.commit [denyAll] fun _ => .sorted,
    .commit [{ denyAll with rules := perDirection (some []) none }]
      fun _ => .sorted]

/-- The list with the former rules stays in the cache without an interface, so
there are more lists than interfaces. -/
theorem replacedRules_unused : ∃ st, run replacedRules = .ok st ∧
      (∃ r ∈ (st.cache.lists .ingress).refs, (st.heap.lists r).interfaces = ∅) ∧
      st.cache.allInterfaces = {"tap1"} ∧
      (st.cache.lists .ingress).refs.length = 2 := by
  refine ⟨_, rfl, ?_⟩
  decide +kernel

end ContivVPP.RuleCache
