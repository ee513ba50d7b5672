import ContivVPP.RuleCacheUpdate

/-!
# Runs of the rule cache

The cache goes through transactions, which are committed or abandoned, and
through resynchronizations.  What it is for is to remember for every interface
and direction the rules it was given last; `Spec` is just that.  Every run of
the cache refines the run of the specification.
-/

namespace ContivVPP.RuleCache

open Renderer GoMap Ownership

variable {π : Type*}

structure ContivRuleCache where
  lists : TrafficDirection → ContivRuleLists
  interfaces : InterfaceSet
  allocatedListIDs : TrafficDirection → Finset String

structure ContivRuleCacheTxn where
  lists : TrafficDirection → ContivRuleLists
  interfaces : InterfaceSet

structure State (π : Type*) where
  heap : Heap π
  cache : ContivRuleCache

def init : State π where
  heap := ⟨0, fun _ => ⟨"", none, ∅, none⟩⟩
  cache := ⟨fun _ => .new, ∅, fun _ => ∅⟩

def ContivRuleCache.lookupByInterface (crc : ContivRuleCache)
    (ifName : String) (direction : TrafficDirection) : Option Ref :=
  (crc.lists direction).lookupByInterface ifName

def ContivRuleCache.allInterfaces (crc : ContivRuleCache) : InterfaceSet :=
  crc.interfaces

def newTxn : ContivRuleCacheTxn := ⟨fun _ => .new, ∅⟩

/-- A call of `Update`, with what it leaves open. -/
structure UpdateCall where
  ifName : String
  rules : TrafficDirection → Rules
  choices : TrafficDirection → Choices

def updateDirection (direction : TrafficDirection) (call : UpdateCall)
    (s : State π × ContivRuleCacheTxn) : State π × ContivRuleCacheTxn :=
  let res := updateInterface (call.choices direction) direction
    (s.1.cache.lists direction) call.ifName (call.rules direction)
    ⟨s.1.cache.allocatedListIDs direction, s.1.heap, s.2.lists direction⟩
  (⟨res.heap, { s.1.cache with
      allocatedListIDs :=
        Function.update s.1.cache.allocatedListIDs direction res.allocated }⟩,
    { s.2 with lists := Function.update s.2.lists direction res.head })

def update (s : State π × ContivRuleCacheTxn) (call : UpdateCall) :
    State π × ContivRuleCacheTxn :=
  let s := (s.1, { s.2 with interfaces := insert call.ifName s.2.interfaces })
  updateDirection .egress call (updateDirection .ingress call s)

def commitDirection (direction : TrafficDirection) (o : SetOrder String)
    (txn : ContivRuleCacheTxn) (s : State π) : State π :=
  let res := commit o (txn.lists direction) (s.heap, s.cache.lists direction)
  ⟨res.1, { s.cache with
    lists := Function.update s.cache.lists direction res.2 }⟩

def commitTxn (orders : TrafficDirection → SetOrder String)
    (s : State π × ContivRuleCacheTxn) : State π :=
  let st := commitDirection .egress (orders .egress) s.2
    (commitDirection .ingress (orders .ingress) s.2 s.1)
  { st with cache :=
      { st.cache with interfaces := st.cache.interfaces ∪ s.2.interfaces } }

/-! ## Resync -/

def trimPrefix (pre text : String) : Option String :=
  if pre.toList.isPrefixOf text.toList then
    some (String.ofList (text.toList.drop pre.toList.length))
  else none

structure ResyncState (π : Type*) where
  heap : Heap π
  lists : ContivRuleLists
  allocated : Finset String
  interfaces : InterfaceSet

def resyncList (direction : TrafficDirection) (o : SetOrder String)
    (s : ResyncState π) (list : ContivRuleList π) :
    Except String (ResyncState π) :=
  if list.interfaces = ∅ then .ok s
  else
    match trimPrefix (direction.string ++ "-") list.id with
    | none => .error ("invalid ContivRuleList ID prefix: " ++ list.id)
    | some suffix =>
        if suffix ∈ s.allocated then
          .error ("duplicate ContivRuleList ID: " ++ list.id)
        else
          let (r, heap) := s.heap.alloc list
          match ContivRuleLists.insert o r (heap, s.lists) with
          | (false, _) => .error ("duplicate ContivRuleList: " ++ list.id)
          | (true, heap, lists) =>
              .ok ⟨heap, lists, insert suffix s.allocated,
                s.interfaces ∪ list.interfaces⟩

def resyncLists (direction : TrafficDirection) (o : SetOrder String)
    (lists : List (ContivRuleList π)) (s : ResyncState π) :
    Except String (ResyncState π) :=
  lists.foldlM (resyncList direction o) s

def perDirection {α : Type*} (ingress egress : α) : TrafficDirection → α
  | .ingress => ingress
  | .egress => egress

/-- `Resync`; on an error the cache stays as it is. -/
def resync (o : SetOrder String)
    (lists : TrafficDirection → List (ContivRuleList π)) (s : State π) :
    Except String (State π) := do
  let ingress ← resyncLists .ingress o (lists .ingress) ⟨s.heap, .new, ∅, ∅⟩
  let egress ← resyncLists .egress o (lists .egress)
    ⟨ingress.heap, .new, ∅, ingress.interfaces⟩
  return ⟨egress.heap,
    ⟨perDirection ingress.lists egress.lists, egress.interfaces,
      perDirection ingress.allocated egress.allocated⟩⟩

/-! ## Runs and their specification -/

inductive Event (π : Type*) where
  | commit (calls : List UpdateCall) (orders : TrafficDirection → SetOrder String)
  | abandon (calls : List UpdateCall)
  | resync (lists : TrafficDirection → List (ContivRuleList π))
      (order : SetOrder String)

def step (s : State π) : Event π → Except String (State π)
  | .commit calls orders =>
      .ok (commitTxn orders (calls.foldl update (s, newTxn)))
  | .abandon calls => .ok (calls.foldl update (s, newTxn)).1
  | .resync lists order => resync order lists s

def run (events : List (Event π)) : Except String (State π) :=
  events.foldlM step init

structure Spec where
  rules : TrafficDirection → String → Option Rules
  interfaces : InterfaceSet

def lastCall (calls : List UpdateCall) (direction : TrafficDirection) :
    String → Option Rules :=
  calls.foldl (fun upd call =>
    Function.update upd call.ifName (some (call.rules direction)))
    fun _ => none

/-- The last list with an interface; there is just one if the sets of the
lists are disjoint. -/
def lastWith (lists : List (ContivRuleList π)) :
    String → Option (ContivRuleList π) :=
  lists.foldl (fun last list x =>
    if x ∈ list.interfaces then some list else last x) fun _ => none

def allInterfaces (lists : List (ContivRuleList π)) : InterfaceSet :=
  lists.foldl (fun set list => set ∪ list.interfaces) ∅

def Spec.step (spec : Spec) : Event π → Spec
  | .commit calls _ =>
      { rules := fun direction x =>
          (lastCall calls direction x).or (spec.rules direction x)
        interfaces :=
          calls.foldl (fun set call => insert call.ifName set) spec.interfaces }
  | .abandon _ => spec
  | .resync lists _ =>
      { rules := fun direction x =>
          (lastWith (lists direction) x).map ContivRuleList.rules
        interfaces :=
          allInterfaces (lists .ingress) ∪ allInterfaces (lists .egress) }

def Spec.run (events : List (Event π)) : Spec :=
  events.foldl Spec.step ⟨fun _ _ => none, ∅⟩

/-! ## Transactions -/

/-- The collections of the cache are well formed and share no lists. -/
structure Consistent (s : State π) : Prop where
  wf : ∀ d, WF s.heap (s.cache.lists d)
  ids : ∀ d, IDsAllocated d (s.cache.allocatedListIDs d) s.heap (s.cache.lists d)
  apart : ∀ d d', d ≠ d' → ∀ r ∈ (s.cache.lists d).refs,
    r ∉ (s.cache.lists d').refs

section Txn

variable {s : State π × ContivRuleCacheTxn}
  {upd : TrafficDirection → String → Option Rules}

def side (s : State π × ContivRuleCacheTxn) (d : TrafficDirection) :
    UpdateState π :=
  ⟨s.1.cache.allocatedListIDs d, s.1.heap, s.2.lists d⟩

def Uses (s : State π × ContivRuleCacheTxn) (d : TrafficDirection)
    (r : Ref) : Prop :=
  r ∈ (s.1.cache.lists d).refs ∨ r ∈ (s.2.lists d).refs

structure InTxn (s : State π × ContivRuleCacheTxn)
    (upd : TrafficDirection → String → Option Rules) : Prop where
  pending : ∀ d, Pending d (s.1.cache.lists d) (side s d) (upd d)
  apart : ∀ d d', d ≠ d' → ∀ r, Uses s d r → ¬ Uses s d' r

theorem inTxn_newTxn {st : State π} (h : Consistent st) :
    InTxn (st, newTxn) fun _ _ => none where
  pending d := pending_new (h.wf d) (h.ids d)
  apart d d' hne r hr hr' := by
    have hbase : ∀ d, Uses (st, newTxn) d r → r ∈ (st.cache.lists d).refs := by
      intro d hr
      rcases hr with hr | hr
      · exact hr
      · simp [newTxn] at hr
    exact h.apart d d' hne r (hbase d hr) (hbase d' hr')

variable {r : Ref}

theorem InTxn.lt_next (h : InTxn s upd) {d : TrafficDirection}
    (hr : Uses s d r) : r < s.1.heap.next := by
  rcases hr with hr | hr
  · exact (h.pending d).baseWF.allocated r hr
  · exact (h.pending d).headWF.allocated r hr

theorem id_append_ne {d d' : TrafficDirection} (hne : d ≠ d')
    (a b : String) : d.string ++ "-" ++ a ≠ d'.string ++ "-" ++ b := by
  rw [ne_eq, ← String.toList_inj]
  cases d <;> cases d' <;> first | exact absurd rfl hne | simp [
    TrafficDirection.string]

theorem InTxn.id_ne (h : InTxn s upd) {d d' : TrafficDirection} (hne : d ≠ d')
    {r' : Ref} (hr : Uses s d r) (hr' : Uses s d' r') :
    (s.1.heap.lists r).id ≠ (s.1.heap.lists r').id := by
  have hid : ∀ {d r}, Uses s d r → ∃ suffix,
      (s.1.heap.lists r).id = d.string ++ "-" ++ suffix := by
    intro d r hr
    rcases hr with hr | hr
    · obtain ⟨suffix, _, hid⟩ := (h.pending d).baseIDs r hr
      exact ⟨suffix, hid⟩
    · obtain ⟨suffix, _, hid⟩ := (h.pending d).headIDs r hr
      exact ⟨suffix, hid⟩
  obtain ⟨a, ha⟩ := hid hr
  obtain ⟨b, hb⟩ := hid hr'
  rw [ha, hb]
  exact id_append_ne hne a b

theorem side_updateDirection_self {d : TrafficDirection}
    {call : UpdateCall} : side (updateDirection d call s) d =
      updateInterface (call.choices d) d (s.1.cache.lists d) call.ifName
        (call.rules d) (side s d) := by
  simp [side, updateDirection]

theorem side_updateDirection_of_ne {d d' : TrafficDirection}
    {call : UpdateCall} (hne : d' ≠ d) :
    side (updateDirection d call s) d' =
      ⟨(side s d').allocated, (updateInterface (call.choices d) d
        (s.1.cache.lists d) call.ifName (call.rules d) (side s d)).heap,
        (side s d').head⟩ := by
  simp [side, updateDirection, hne]

theorem InTxn.updateDirection (h : InTxn s upd) (d : TrafficDirection)
    (call : UpdateCall) :
    InTxn (updateDirection d call s) (Function.update upd d
      (Function.update (upd d) call.ifName (some (call.rules d)))) := by
  obtain ⟨hpending, hextends, _⟩ := (h.pending d).updateInterface
    (call.choices d) call.ifName (call.rules d)
  have hsame : ∀ d', d' ≠ d → ∀ r, Uses s d' r →
      (updateInterface (call.choices d) d (s.1.cache.lists d) call.ifName
        (call.rules d) (side s d)).heap.lists r = s.1.heap.lists r := by
    intro d' hne r hr
    refine hextends.outside r (h.lt_next hr) fun hmem => ?_
    exact h.apart d' d hne r hr (Or.inr hmem)
  constructor
  · intro d'
    by_cases hd : d' = d
    · rw [hd, Function.update_self, side_updateDirection_self]
      exact hpending
    · rw [Function.update_of_ne hd, side_updateDirection_of_ne hd]
      exact (h.pending d').congr hextends.next_le fun r hr => by
        rw [hsame d' hd r hr]
        exact ⟨rfl, rfl, rfl⟩
  · -- What the other direction uses existed before.
    have huses : ∀ r, Uses (RuleCache.updateDirection d call s) d r →
        Uses s d r ∨ s.1.heap.next ≤ r := by
      intro r hr
      rcases hr with hr | hr
      · exact Or.inl (Or.inl hr)
      · have hr' : r ∈ (side (RuleCache.updateDirection d call s)
            d).head.refs := hr
        rw [side_updateDirection_self] at hr'
        rcases hextends.refs r hr' with hold | hnew
        · exact Or.inl (Or.inr hold)
        · exact Or.inr hnew
    have huses' : ∀ d', d' ≠ d → ∀ r,
        Uses (RuleCache.updateDirection d call s) d' r → Uses s d' r := by
      intro d' hne r hr
      simpa [Uses, RuleCache.updateDirection, hne] using hr
    have hapart : ∀ d', d' ≠ d → ∀ r,
        Uses (RuleCache.updateDirection d call s) d r →
        ¬ Uses (RuleCache.updateDirection d call s) d' r := by
      intro d' hne r hr hr'
      have hr' := huses' d' hne r hr'
      rcases huses r hr with hold | hnew
      · exact h.apart d d' hne.symm r hold hr'
      · exact absurd (h.lt_next hr') (not_lt.mpr hnew)
    intro d₁ d₂ hne r hr₁ hr₂
    by_cases hd₁ : d₁ = d
    · exact hapart d₂ (fun heq => hne (hd₁.trans heq.symm)) r (hd₁ ▸ hr₁) hr₂
    · by_cases hd₂ : d₂ = d
      · exact hapart d₁ hd₁ r (hd₂ ▸ hr₂) hr₁
      · exact h.apart d₁ d₂ hne r (huses' d₁ hd₁ r hr₁) (huses' d₂ hd₂ r hr₂)

def TxnPriv (s : State π × ContivRuleCacheTxn) : Prop :=
  ∀ d, PrivCopied (s.1.cache.lists d) (side s d)

theorem txnPriv_newTxn (st : State π) : TxnPriv (st, newTxn) := by
  intro d r hr
  simp [side, newTxn] at hr

theorem InTxn.txnPriv_updateDirection (h : InTxn s upd) (hpriv : TxnPriv s)
    (d : TrafficDirection) (call : UpdateCall) :
    TxnPriv (RuleCache.updateDirection d call s) := by
  obtain ⟨_, hextends, hcopied⟩ := (h.pending d).updateInterface
    (call.choices d) call.ifName (call.rules d)
  intro d'
  by_cases hd : d' = d
  · rw [hd, side_updateDirection_self]
    exact hcopied (hpriv d)
  · have hsame : ∀ r, Uses s d' r → (updateInterface (call.choices d) d
        (s.1.cache.lists d) call.ifName (call.rules d)
        (side s d)).heap.lists r = s.1.heap.lists r := by
      intro r hr
      refine hextends.outside r (h.lt_next hr) fun hmem => ?_
      exact h.apart d' d hd r hr (Or.inr hmem)
    intro r hr b hb
    rw [side_updateDirection_of_ne hd] at hr ⊢
    simp only [hsame r (Or.inr hr), hsame b (Or.inl hb)]
    exact hpriv d' r hr b hb

theorem InTxn.update (h : InTxn s upd) (call : UpdateCall) :
    InTxn (update s call) fun d =>
      Function.update (upd d) call.ifName (some (call.rules d)) := by
  have hstart : InTxn (s.1, { s.2 with
      interfaces := insert call.ifName s.2.interfaces }) upd :=
    ⟨h.pending, h.apart⟩
  have hboth := (hstart.updateDirection .ingress call).updateDirection .egress
    call
  have hupd : (fun d => Function.update (upd d) call.ifName
      (some (call.rules d))) =
      Function.update (Function.update upd .ingress (Function.update
        (upd .ingress) call.ifName (some (call.rules .ingress)))) .egress
        (Function.update (upd .egress) call.ifName
          (some (call.rules .egress))) := by
    funext d
    cases d <;> simp
  rw [hupd]
  exact hboth

theorem foldl_update_cache (calls : List UpdateCall) :
    (calls.foldl update s).1.cache.lists = s.1.cache.lists ∧
      (calls.foldl update s).1.cache.interfaces = s.1.cache.interfaces ∧
      (calls.foldl update s).2.interfaces =
        calls.foldl (fun set call => insert call.ifName set) s.2.interfaces := by
  induction calls generalizing s with
  | nil => exact ⟨rfl, rfl, rfl⟩
  | cons call calls ih => exact @ih (RuleCache.update s call)

theorem InTxn.foldl_update (h : InTxn s upd) (calls : List UpdateCall) :
    InTxn (calls.foldl RuleCache.update s) fun d =>
      calls.foldl (fun upd call =>
        Function.update upd call.ifName (some (call.rules d))) (upd d) := by
  induction calls generalizing s upd with
  | nil => exact h
  | cons call calls ih => exact ih (h.update call)

theorem InTxn.txnPriv_foldl_update (h : InTxn s upd) (hpriv : TxnPriv s)
    (calls : List UpdateCall) :
    TxnPriv (calls.foldl RuleCache.update s) := by
  induction calls generalizing s upd with
  | nil => exact hpriv
  | cons call calls ih =>
      have hstart : InTxn (s.1, { s.2 with
          interfaces := insert call.ifName s.2.interfaces }) upd :=
        ⟨h.pending, h.apart⟩
      have hfirst := hstart.txnPriv_updateDirection hpriv .ingress call
      have hsecond := (hstart.updateDirection .ingress
        call).txnPriv_updateDirection hfirst .egress call
      exact ih (h.update call) hsecond

theorem InTxn.lists_updateDirection (h : InTxn s upd) (d : TrafficDirection)
    (call : UpdateCall) (d' : TrafficDirection)
    (hr : r ∈ (s.1.cache.lists d').refs) :
    (RuleCache.updateDirection d call s).1.heap.lists r = s.1.heap.lists r := by
  obtain ⟨_, hextends, _⟩ := (h.pending d).updateInterface
    (call.choices d) call.ifName (call.rules d)
  refine hextends.outside r (h.lt_next (d := d') (Or.inl hr)) fun hmem => ?_
  by_cases hd : d = d'
  · subst hd
    exact (h.pending d).apart r hmem hr
  · exact h.apart d d' hd r (Or.inr hmem) (Or.inl hr)

theorem InTxn.lists_foldl_update (h : InTxn s upd) (calls : List UpdateCall)
    {d : TrafficDirection} (hr : r ∈ (s.1.cache.lists d).refs) :
    (calls.foldl RuleCache.update s).1.heap.lists r = s.1.heap.lists r := by
  induction calls generalizing s upd with
  | nil => rfl
  | cons call calls ih =>
      have hstart : InTxn (s.1, { s.2 with
          interfaces := insert call.ifName s.2.interfaces }) upd :=
        ⟨h.pending, h.apart⟩
      have hfirst := hstart.lists_updateDirection .ingress call d hr
      have hsecond := (hstart.updateDirection .ingress
        call).lists_updateDirection .egress call d hr
      rw [List.foldl_cons, ih (h.update call) hr]
      exact hsecond.trans hfirst

/-- The transaction has been committed to the collection of a direction.  The
heap may have changed before and after, but not in this direction. -/
structure CommittedIn (s : State π × ContivRuleCacheTxn) (st : State π)
    (upd : TrafficDirection → String → Option Rules)
    (d : TrafficDirection) (h h' : Heap π) : Prop where
  before : ∀ r, Uses s d r → h.lists r = s.1.heap.lists r
  pending : Pending d (s.1.cache.lists d)
    ⟨(side s d).allocated, h, (side s d).head⟩ (upd d)
  committed : Committed h h' (s.1.cache.lists d) (st.cache.lists d)
    (s.2.lists d).refs
  owner : ∃ o, (st.cache.lists d) =
    (commit o (s.2.lists d) (h, s.1.cache.lists d)).2
  after : ∀ r ∈ (st.cache.lists d).refs, st.heap.lists r = h'.lists r
  next : st.heap.next = h'.next

theorem Pending.refs_commit {d : TrafficDirection} {base : ContivRuleLists}
    {t : UpdateState π} {upd : String → Option Rules}
    (h : Pending d base t upd) (o : SetOrder String)
    (hr : r ∈ (commit o t.head (t.heap, base)).2.refs) :
    r ∈ base.refs ∨ r ∈ t.head.refs := by
  rcases ((h.committed o).refs_iff r).mp hr with hold | hnew
  · exact Or.inl hold
  · exact Or.inr hnew.1

theorem InTxn.commitTxn (h : InTxn s upd)
    (orders : TrafficDirection → SetOrder String) (d : TrafficDirection) :
    ∃ h₁ h₂, CommittedIn s (commitTxn orders s) upd d h₁ h₂ := by
  have hin := h.pending .ingress
  have hcommit := hin.committed (orders .ingress)
  have hrefs : ∀ r, Uses s .egress r → r ∉ (commit (orders .ingress)
      (s.2.lists .ingress) (s.1.heap, s.1.cache.lists .ingress)).2.refs :=
    fun r hr hmem => h.apart .egress .ingress (by decide) r hr
      (hin.refs_commit (orders .ingress) hmem)
  have hout : Pending .egress (s.1.cache.lists .egress)
      ⟨s.1.cache.allocatedListIDs .egress, (commit (orders .ingress)
        (s.2.lists .ingress) (s.1.heap, s.1.cache.lists .ingress)).1,
        s.2.lists .egress⟩ (upd .egress) :=
    (h.pending .egress).congr hcommit.next.ge fun r hr => by
      have hlist := hcommit.outside r (hrefs r hr)
      exact ⟨congrArg _ hlist, congrArg _ hlist, congrArg _ hlist⟩
  have hcommit' := hout.committed (orders .egress)
  cases d with
  | ingress =>
      refine ⟨s.1.heap, _, fun _ _ => rfl, hin, hcommit,
        ⟨orders .ingress, rfl⟩, ?_, hcommit'.next⟩
      intro r hr
      refine hcommit'.outside r fun hmem => ?_
      exact hrefs r (hout.refs_commit (orders .egress) hmem) hr
  | egress =>
      exact ⟨_, _, fun r hr => hcommit.outside r (hrefs r hr), hout, hcommit',
        ⟨orders .egress, rfl⟩, fun _ _ => rfl, rfl⟩

section CommittedIn

variable {st : State π} {d : TrafficDirection} {h h' : Heap π}

section

variable (hc : CommittedIn s st upd d h h')
include hc

theorem CommittedIn.owner_eq (x : String) : (st.cache.lists d).byInterface x =
      if upd d x = none then (s.1.cache.lists d).byInterface x
      else ((s.2.lists d).byInterface x).map (target h (s.1.cache.lists d)) := by
  obtain ⟨o, ho⟩ := hc.owner
  rw [ho]
  exact hc.pending.owner_commit o x

theorem CommittedIn.owner_target (hr : r ∈ (s.2.lists d).refs) (x : String) :
    (st.cache.lists d).byInterface x = some (target h (s.1.cache.lists d) r) ↔
      x ∈ (h.lists r).interfaces := by
  obtain ⟨o, ho⟩ := hc.owner
  rw [ho]
  exact hc.pending.owner_commit_target o hr x

theorem CommittedIn.owner_uncovered {b : Ref}
    (hb : b ∈ (s.1.cache.lists d).refs) (hnot : ¬ Covered h (s.2.lists d) b)
    (x : String) :
    (st.cache.lists d).byInterface x = some b ↔ x ∈ (h.lists b).interfaces := by
  obtain ⟨o, ho⟩ := hc.owner
  rw [ho]
  exact hc.pending.owner_commit_uncovered o hb hnot x

theorem CommittedIn.uses (hr : r ∈ (st.cache.lists d).refs) : Uses s d r := by
  rcases (hc.committed.refs_iff r).mp hr with hold | hnew
  · exact Or.inl hold
  · exact Or.inr hnew.1

theorem CommittedIn.rules (hr : r ∈ (st.cache.lists d).refs) :
    (st.heap.lists r).id = (s.1.heap.lists r).id ∧
      (st.heap.lists r).rules = (s.1.heap.lists r).rules := by
  rw [hc.after r hr, hc.committed.id, hc.committed.rules,
    hc.before r (hc.uses hr)]
  exact ⟨rfl, rfl⟩

end

end CommittedIn

theorem InTxn.consistent_commitTxn (h : InTxn s upd)
    (orders : TrafficDirection → SetOrder String) :
    Consistent (RuleCache.commitTxn orders s) where
  wf d := by
    obtain ⟨h₁, h₂, hc⟩ := h.commitTxn orders d
    exact hc.committed.wf.congr hc.next.ge fun r hr => by
      rw [hc.after r hr]
      exact ⟨rfl, rfl, rfl⟩
  ids d r hr := by
    obtain ⟨h₁, h₂, hc⟩ := h.commitTxn orders d
    rw [(hc.rules hr).1]
    rcases (hc.committed.refs_iff r).mp hr with hold | hnew
    · exact (h.pending d).baseIDs r hold
    · exact (h.pending d).headIDs r hnew.1
  apart d d' hne r hr hr' := by
    obtain ⟨h₁, h₂, hc⟩ := h.commitTxn orders d
    obtain ⟨h₁', h₂', hc'⟩ := h.commitTxn orders d'
    exact h.apart d d' hne r (hc.uses hr) (hc'.uses hr')

theorem InTxn.lookup_commitTxn (h : InTxn s upd)
    (orders : TrafficDirection → SetOrder String) (d : TrafficDirection)
    (x : String) :
    (∀ rules, upd d x = some rules → ∃ r,
      ((RuleCache.commitTxn orders s).cache.lists d).byInterface x = some r ∧
        ((RuleCache.commitTxn orders s).heap.lists r).rules = rules) ∧
      (upd d x = none →
        ((RuleCache.commitTxn orders s).cache.lists d).byInterface x =
          (s.1.cache.lists d).byInterface x ∧
        ∀ r, (s.1.cache.lists d).byInterface x = some r →
          ((RuleCache.commitTxn orders s).heap.lists r).id =
            (s.1.heap.lists r).id ∧
          ((RuleCache.commitTxn orders s).heap.lists r).rules =
            (s.1.heap.lists r).rules) := by
  obtain ⟨h₁, h₂, hc⟩ := h.commitTxn orders d
  have hwf := (h.consistent_commitTxn orders).wf d
  have howner := hc.owner_eq x
  constructor
  · intro rules hupd
    obtain ⟨r, hr, hrules⟩ := hc.pending.assigned x rules hupd
    have hmem := ((hc.pending.headWF.byInterface_iff x r).mp hr).1
    have hr' : (s.2.lists d).byInterface x = some r := hr
    rw [hupd, if_neg (by simp), hr', Option.map_some] at howner
    refine ⟨_, howner, ?_⟩
    have htarget := ((hwf.byInterface_iff x _).mp howner).1
    rw [hc.after _ htarget, hc.committed.rules, ← hrules]
    exact hc.pending.rules_target hmem
  · intro hupd
    rw [if_pos hupd] at howner
    refine ⟨howner, fun r hr => ?_⟩
    rw [← howner] at hr
    exact hc.rules ((hwf.byInterface_iff x r).mp hr).1

/-- The lists that are up to date in the transaction: its own, and those of
the cache that it has no copies of. -/
def Current (s : State π × ContivRuleCacheTxn) (d : TrafficDirection)
    (r : Ref) : Prop :=
  r ∈ (s.2.lists d).refs ∨ (r ∈ (s.1.cache.lists d).refs ∧
    ¬ Covered s.1.heap (s.2.lists d) r)

/-- After commit, a list of the cache carries the data of a list that is up to
date in the transaction. -/
structure Carries (s : State π × ContivRuleCacheTxn) (st : State π)
    (d : TrafficDirection) (q r : Ref) : Prop where
  mem : q ∈ (st.cache.lists d).refs
  id : (st.heap.lists q).id = (s.1.heap.lists r).id
  rules : (st.heap.lists q).rules = (s.1.heap.lists r).rules
  interfaces : (st.heap.lists q).interfaces = (s.1.heap.lists r).interfaces
  priv : ∃ r', (r' = r ∨ (r' ∈ (s.1.cache.lists d).refs ∧
      (s.1.heap.lists r').id = (s.1.heap.lists r).id ∧
      (s.1.heap.lists r').interfaces ≠ ∅)) ∧
    (st.heap.lists q).priv = (s.1.heap.lists r').priv

theorem CommittedIn.target_eq {st : State π} {d : TrafficDirection}
    {h h' : Heap π} (hc : CommittedIn s st upd d h h')
    (hr : r ∈ (s.2.lists d).refs) : target h (s.1.cache.lists d) r =
      target s.1.heap (s.1.cache.lists d) r := by
  rw [target, target, hc.before r (Or.inr hr)]

theorem CommittedIn.covered_iff {st : State π} {d : TrafficDirection}
    {h h' : Heap π} (hc : CommittedIn s st upd d h h') {b : Ref}
    (hb : b ∈ (s.1.cache.lists d).refs) :
    Covered h (s.2.lists d) b ↔ Covered s.1.heap (s.2.lists d) b := by
  have hid : ∀ r ∈ (s.2.lists d).refs, (h.lists r).id = (s.1.heap.lists r).id :=
    fun r hr => by rw [hc.before r (Or.inr hr)]
  unfold Covered
  rw [hc.before b (Or.inl hb)]
  constructor <;> rintro ⟨r, hr, heq⟩
  · exact ⟨r, hr, (hid r hr).symm.trans heq⟩
  · exact ⟨r, hr, (hid r hr).trans heq⟩

section Carries

variable {st : State π} {d : TrafficDirection} {h h' : Heap π}

theorem CommittedIn.byInterface_target (hc : CommittedIn s st upd d h h')
    (hr : r ∈ (s.2.lists d).refs) (x : String) :
    (st.cache.lists d).byInterface x =
        some (target s.1.heap (s.1.cache.lists d) r) ↔
      x ∈ (s.1.heap.lists r).interfaces := by
  rw [← hc.target_eq hr, hc.owner_target hr, hc.before r (Or.inr hr)]

theorem CommittedIn.carries_target (hc : CommittedIn s st upd d h h')
    (hin : InTxn s upd) (hwf : WF st.heap (st.cache.lists d))
    (hr : r ∈ (s.2.lists d).refs) (hne : (s.1.heap.lists r).interfaces ≠ ∅) :
    Carries s st d (target s.1.heap (s.1.cache.lists d) r) r := by
  obtain ⟨x, hx⟩ := Finset.nonempty_iff_ne_empty.mpr hne
  have hmem := ((hwf.byInterface_iff x _).mp
    ((hc.byInterface_target hr x).mpr hx)).1
  obtain ⟨hid, hrules⟩ := hc.rules hmem
  refine ⟨hmem, hid.trans (id_target (hin.pending d).baseWF r),
    hrules.trans ((hin.pending d).rules_target hr), Finset.ext fun y => ?_,
    ?_⟩
  · rw [← hc.byInterface_target hr y, hwf.byInterface_iff, and_iff_right hmem]
  · have hpriv := hc.committed.priv r hr (by rwa [hc.before r (Or.inr hr)])
    rw [hc.target_eq hr, hc.before r (Or.inr hr),
      hc.before _ (hc.uses hmem)] at hpriv
    rw [hc.after _ hmem]
    rcases hpriv with hcopy | hown
    · exact ⟨r, Or.inl rfl, hcopy⟩
    · refine ⟨_, ?_, hown.2⟩
      cases hbase : (s.1.cache.lists d).byID (s.1.heap.lists r).id with
      | none => exact Or.inl (by rw [target, hbase, Option.getD_none])
      | some b =>
          obtain ⟨hb, hid⟩ :=
            ((hin.pending d).baseWF.byID_iff _ b).mp hbase
          rw [target, hbase, Option.getD_some] at hown ⊢
          exact Or.inr ⟨hb, hid, hown.1⟩

theorem CommittedIn.carries_uncovered (hc : CommittedIn s st upd d h h')
    (hin : InTxn s upd) (hwf : WF st.heap (st.cache.lists d)) {b : Ref}
    (hb : b ∈ (s.1.cache.lists d).refs)
    (hnot : ¬ Covered s.1.heap (s.2.lists d) b) : Carries s st d b b := by
  have hmem := (hc.committed.refs_iff b).mpr (Or.inl hb)
  have hnot' := fun hcov => hnot ((hc.covered_iff hb).mp hcov)
  refine ⟨hmem, (hc.rules hmem).1, (hc.rules hmem).2,
    Finset.ext fun y => ?_, b, Or.inl rfl, ?_⟩
  · have hiff := hc.owner_uncovered hb hnot' y
    rw [hc.before b (Or.inl hb)] at hiff
    rw [← hiff, hwf.byInterface_iff, and_iff_right hmem]
  · rw [hc.after b hmem, ← hc.before b (Or.inl hb)]
    refine (hc.committed.others b fun r hr _ heq => hnot ?_).1
    rw [hc.target_eq hr] at heq
    exact ⟨r, hr, ((hin.pending d).target_eq_iff hb).mp heq⟩

end Carries

theorem InTxn.exists_carries (hin : InTxn s upd)
    (orders : TrafficDirection → SetOrder String) {d : TrafficDirection}
    (hr : Current s d r) (hne : (s.1.heap.lists r).interfaces ≠ ∅) :
    ∃ q, Carries s (RuleCache.commitTxn orders s) d q r := by
  obtain ⟨h, h', hc⟩ := hin.commitTxn orders d
  have hwf := (hin.consistent_commitTxn orders).wf d
  rcases hr with hr | hr
  · exact ⟨_, hc.carries_target hin hwf hr hne⟩
  · exact ⟨r, hc.carries_uncovered hin hwf hr.1 hr.2⟩

theorem InTxn.carries (hin : InTxn s upd)
    (orders : TrafficDirection → SetOrder String) {d : TrafficDirection}
    {q : Ref} (hq : q ∈ ((RuleCache.commitTxn orders s).cache.lists d).refs)
    (hne : ((RuleCache.commitTxn orders s).heap.lists q).interfaces ≠ ∅) :
    ∃ r, Current s d r ∧ Carries s (RuleCache.commitTxn orders s) d q r := by
  obtain ⟨h, h', hc⟩ := hin.commitTxn orders d
  have hwf := (hin.consistent_commitTxn orders).wf d
  by_cases hcov : ∃ r ∈ (s.2.lists d).refs,
      q = target s.1.heap (s.1.cache.lists d) r
  · obtain ⟨r, hr, heq⟩ := hcov
    obtain ⟨x, hx⟩ := Finset.nonempty_iff_ne_empty.mpr hne
    have hx' := (hwf.byInterface_iff x q).mpr ⟨hq, hx⟩
    rw [heq, hc.byInterface_target hr x] at hx'
    refine ⟨r, Or.inl hr, ?_⟩
    rw [heq]
    exact hc.carries_target hin hwf hr (Finset.ne_empty_of_mem hx')
  · push Not at hcov
    rcases (hc.committed.refs_iff q).mp hq with hold | hnew
    · have hnot : ¬ Covered s.1.heap (s.2.lists d) q := by
        rintro ⟨r, hr, hid⟩
        exact hcov r hr ((hin.pending d).target_eq_iff hold |>.mpr hid).symm
      exact ⟨q, Or.inr ⟨hold, hnot⟩, hc.carries_uncovered hin hwf hold hnot⟩
    · refine absurd ?_ (hcov q hnew.1)
      rw [← hc.target_eq hnew.1, target, hnew.2.1, Option.getD_none]

end Txn

/-! ## Refinement -/

structure Refines (st : State π) (spec : Spec) : Prop where
  consistent : Consistent st
  rules : ∀ d x, ((st.cache.lists d).byInterface x).map
    (fun r => (st.heap.lists r).rules) = spec.rules d x
  interfaces : st.cache.interfaces = spec.interfaces

theorem refines_init : Refines (init : State π) ⟨fun _ _ => none, ∅⟩ where
  consistent :=
    ⟨fun _ => wf_new _, fun _ r hr => by simp [init] at hr,
      fun _ _ _ r hr => by simp [init] at hr⟩
  rules d x := by simp [init]
  interfaces := rfl

theorem foldl_insert_eq (calls : List UpdateCall) (set : InterfaceSet) :
    calls.foldl (fun set call => insert call.ifName set) set =
      set ∪ calls.foldl (fun set call => insert call.ifName set) ∅ := by
  induction calls generalizing set with
  | nil => simp
  | cons call calls ih =>
      rw [List.foldl_cons, List.foldl_cons, ih (insert call.ifName set),
        ih (insert call.ifName ∅)]
      ext x
      simp only [Finset.mem_union, Finset.mem_insert, Finset.notMem_empty]
      tauto

theorem Refines.commit {st : State π} {spec : Spec} (h : Refines st spec)
    (calls : List UpdateCall)
    (orders : TrafficDirection → SetOrder String) :
    Refines (commitTxn orders (calls.foldl update (st, newTxn)))
      (spec.step (.commit calls orders : Event π)) := by
  have hnew := inTxn_newTxn h.consistent
  have hin := hnew.foldl_update calls
  obtain ⟨hlists, hinterfaces, htxn⟩ :=
    foldl_update_cache (s := (st, newTxn)) calls
  refine ⟨hin.consistent_commitTxn orders, ?_, ?_⟩
  · intro d x
    obtain ⟨hsome, hnone⟩ := hin.lookup_commitTxn orders d x
    change _ = (lastCall calls d x).or (spec.rules d x)
    cases hupd : lastCall calls d x with
    | some rules =>
        obtain ⟨r, hr, hrules⟩ := hsome rules hupd
        rw [hr, Option.map_some, hrules]
        rfl
    | none =>
        obtain ⟨howner, hsame⟩ := hnone hupd
        rw [hlists] at howner hsame
        rw [howner, Option.none_or, ← h.rules d x]
        cases hr : (st.cache.lists d).byInterface x with
        | none => rfl
        | some r =>
            rw [Option.map_some, Option.map_some, (hsame r hr).2,
              hnew.lists_foldl_update calls
                (((h.consistent.wf d).byInterface_iff x r).mp hr).1]
  · change (calls.foldl update (st, newTxn)).1.cache.interfaces ∪
      (calls.foldl update (st, newTxn)).2.interfaces =
        calls.foldl (fun set call => insert call.ifName set) spec.interfaces
    rw [hinterfaces, htxn, foldl_insert_eq calls spec.interfaces, h.interfaces]
    rfl

theorem Refines.abandon {st : State π} {spec : Spec} (h : Refines st spec)
    (calls : List UpdateCall) :
    Refines (calls.foldl update (st, newTxn)).1 spec := by
  have hnew := inTxn_newTxn h.consistent
  have hin := hnew.foldl_update calls
  obtain ⟨hlists, hinterfaces, _⟩ :=
    foldl_update_cache (s := (st, newTxn)) calls
  refine ⟨⟨fun d => (hin.pending d).baseWF, fun d => (hin.pending d).baseIDs,
    fun d d' hne r hr hr' => hin.apart d d' hne r (Or.inl hr) (Or.inl hr')⟩,
    ?_, hinterfaces.trans h.interfaces⟩
  intro d x
  rw [hlists, ← h.rules d x]
  cases hr : (st.cache.lists d).byInterface x with
  | none => rfl
  | some r =>
      rw [Option.map_some, Option.map_some, hnew.lists_foldl_update calls
        (((h.consistent.wf d).byInterface_iff x r).mp hr).1]

end ContivVPP.RuleCache
