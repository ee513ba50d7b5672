import ContivVPP.AclRenderer
import ContivVPP.RuleCacheChanges

/-!
# Committing ACL changes

The second half of a commit renders the changes of both directions, sends them
to VPP as one transaction, and saves them in the cache.  It succeeds if the
lists that had interfaces before carry an ACL, and VPP then differs from
before in just the ACLs of the changed lists.
-/

namespace ContivVPP.AclRenderer

open ContivVPP.Renderer GoMap RuleCache

/-! ## Rendering changes -/

def opValue (o : SetOrder String) (d : TrafficDirection)
    (list : ContivRuleList Acl) (previous : InterfaceSet) : Option Acl :=
  if previous = ∅ then some (renderACL o list d)
  else if list.interfaces ≠ ∅ then
    list.priv.map fun acl => { acl with
      interfaces := some (renderInterfaces o list.interfaces d) }
  else none

def changeOp (o : SetOrder String) (d : TrafficDirection) (h : Heap Acl)
    (change : TxnChange) : TxnOp :=
  ((h.lists change.list).id,
    opValue o d (h.lists change.list) change.previousInterfaces)

def Assertable (h : Heap Acl) (change : TxnChange) : Prop :=
  change.previousInterfaces ≠ ∅ → ∃ acl, (h.lists change.list).priv = some acl ∧
      acl.aclName = (h.lists change.list).id

structure Rendered (o : SetOrder String) (d : TrafficDirection)
    (h h' : Heap Acl) (changes : List TxnChange) : Prop where
  next : h'.next = h.next
  same : ∀ r, (h'.lists r).id = (h.lists r).id ∧
    (h'.lists r).rules = (h.lists r).rules ∧
    (h'.lists r).interfaces = (h.lists r).interfaces
  outside : ∀ r, (∀ change ∈ changes, change.list ≠ r) → h'.lists r = h.lists r
  priv : ∀ change ∈ changes, (h.lists change.list).interfaces ≠ ∅ →
    (h'.lists change.list).priv =
      opValue o d (h.lists change.list) change.previousInterfaces

section Render

variable {o : SetOrder String} {d : TrafficDirection} {h : Heap Acl}
  {change : TxnChange} {changes : List TxnChange}

theorem rendered_setPriv {acl : Acl}
    (hvalue : opValue o d (h.lists change.list) change.previousInterfaces =
      some acl) :
    Rendered o d h (h.setPriv change.list (some acl)) [change] where
  next := rfl
  same r := by simp
  outside r hr := by
    have hne : r ≠ change.list :=
      (hr change (List.mem_singleton_self change)).symm
    exact Heap.setPriv_of_ne hne
  priv c hc _ := by
    rw [List.mem_singleton.mp hc, Heap.setPriv_self, hvalue]

theorem renderChange_ok (hassert : Assertable h change) :
    ∃ h', renderChange o d h change = .ok (h', changeOp o d h change) ∧
      Rendered o d h h' [change] := by
  unfold renderChange changeOp
  by_cases hprev : change.previousInterfaces = ∅
  · have hvalue : opValue o d (h.lists change.list)
        change.previousInterfaces =
        some (renderACL o (h.lists change.list) d) := by
      simp [opValue, hprev]
    refine ⟨_, ?_, rendered_setPriv hvalue⟩
    simp only [if_pos hprev, hvalue]
    rfl
  · obtain ⟨acl, hacl, hname⟩ := hassert hprev
    by_cases hifs : (h.lists change.list).interfaces = ∅
    · refine ⟨h, ?_, rfl, fun _ => ⟨rfl, rfl, rfl⟩, fun _ _ => rfl, ?_⟩
      · simp only [if_neg hprev, hifs, ne_eq, not_true_eq_false, if_false,
          hacl, assertACL, opValue, ← hname]
        rfl
      · intro c hc hne
        rw [List.mem_singleton.mp hc] at hne
        exact absurd hifs hne
    · have hvalue : opValue o d (h.lists change.list)
          change.previousInterfaces = some { acl with
            interfaces := some (renderInterfaces o
              (h.lists change.list).interfaces d) } := by
        simp [opValue, hprev, hifs, hacl]
      refine ⟨_, ?_, rendered_setPriv hvalue⟩
      simp only [if_neg hprev, ne_eq, hifs, not_false_eq_true, if_true, hacl,
        assertACL, hvalue, ← hname]
      rfl

theorem renderChanges_ok (hnodup : (changes.map TxnChange.list).Nodup)
    (hassert : ∀ change ∈ changes, Assertable h change)
    (ops : List TxnOp) :
    ∃ h', renderChanges o d changes (h, ops) =
        .ok (h', ops ++ changes.map (changeOp o d h)) ∧
      Rendered o d h h' changes := by
  induction changes generalizing h ops with
  | nil =>
      refine ⟨h, ?_, rfl, fun _ => ⟨rfl, rfl, rfl⟩, fun _ _ => rfl, by simp⟩
      simp only [List.map_nil, List.append_nil]
      rfl
  | cons change changes ih =>
      rw [List.map_cons, List.nodup_cons] at hnodup
      obtain ⟨h₁, hstep, hfirst⟩ :=
        @renderChange_ok o d h change (hassert change List.mem_cons_self)
      have hkept : ∀ c ∈ changes, h₁.lists c.list = h.lists c.list := by
        intro c hc
        refine hfirst.outside c.list fun c' hc' heq => hnodup.1 ?_
        rw [List.mem_singleton.mp hc'] at heq
        exact List.mem_map.mpr ⟨c, hc, heq.symm⟩
      have hassert' : ∀ c ∈ changes, Assertable h₁ c := by
        intro c hc
        rw [Assertable, hkept c hc]
        exact hassert c (List.mem_cons_of_mem change hc)
      obtain ⟨h₂, hrun, hrest⟩ := ih hnodup.2 hassert'
        (ops ++ [changeOp o d h change])
      have hops : changes.map (changeOp o d h₁) =
          changes.map (changeOp o d h) := by
        refine List.map_congr_left fun c hc => ?_
        rw [changeOp, changeOp, hkept c hc]
      refine ⟨h₂, ?_, hrest.next.trans hfirst.next, fun r => ?_,
        fun r hr => ?_, fun c hc hne => ?_⟩
      · rw [renderChanges, List.foldlM_cons, hstep]
        rw [hops, List.append_assoc, List.singleton_append] at hrun
        exact hrun
      · obtain ⟨hid, hrules, hifs⟩ := hrest.same r
        obtain ⟨hid', hrules', hifs'⟩ := hfirst.same r
        exact ⟨hid.trans hid', hrules.trans hrules', hifs.trans hifs'⟩
      · rw [hrest.outside r fun c hc => hr c (List.mem_cons_of_mem change hc),
          hfirst.outside r fun c hc => by
            rw [List.mem_singleton.mp hc]
            exact hr change List.mem_cons_self]
      · rcases List.mem_cons.mp hc with heq | hmem
        · rw [heq] at hne ⊢
          have hlater : h₂.lists change.list = h₁.lists change.list := by
            refine hrest.outside change.list fun c' hc' heq' => hnodup.1 ?_
            exact List.mem_map.mpr ⟨c', hc', heq'⟩
          rw [hlater]
          exact hfirst.priv change (List.mem_singleton_self change) hne
        · have hpriv := hrest.priv c hmem
          rw [hkept c hmem] at hpriv
          exact hpriv hne

end Render

/-! ## The changes of a transaction -/

abbrev Txn := State Acl × ContivRuleCacheTxn

abbrev previous (s : Txn) (d : TrafficDirection) (r : Ref) : InterfaceSet :=
  s.1.interfacesOf d (s.1.heap.lists r).id

def Changed (s : Txn) (d : TrafficDirection) (r : Ref) : Prop :=
  r ∈ (s.2.lists d).refs ∧ (s.1.heap.lists r).rules.getD [] ≠ [] ∧
    (s.1.heap.lists r).interfaces ≠ previous s d r

section Changes

variable {s : Txn} {upd : TrafficDirection → String → Option Rules}
  {d : TrafficDirection}

theorem mem_changesOf {change : TxnChange} :
    change ∈ changesOf s d ↔ Changed s d change.list ∧
      change.previousInterfaces = previous s d change.list := by
  rw [show changesOf s d = filterEmpty s.1.heap ((changes s).1 d) from rfl,
    filterEmpty, List.mem_filter, mem_changes_iff, decide_eq_true_eq,
    gt_iff_lt, List.length_pos_iff, Changed]
  constructor
  · rintro ⟨⟨hr, hprev, hne⟩, hrules⟩
    exact ⟨⟨hr, hrules, fun heq => hne (heq.trans hprev.symm)⟩, hprev⟩
  · rintro ⟨⟨hr, hrules, hne⟩, hprev⟩
    exact ⟨⟨hr, hprev, fun heq => hne (heq.trans hprev)⟩, hrules⟩

theorem changesOf_eq_nil_iff : changesOf s d = [] ↔ ∀ r, ¬ Changed s d r := by
  rw [List.eq_nil_iff_forall_not_mem]
  constructor
  · intro h r hr
    exact h ⟨r, previous s d r⟩ (mem_changesOf.mpr ⟨hr, rfl⟩)
  · intro h change hmem
    exact h change.list (mem_changesOf.mp hmem).1

theorem nodup_changesOf (hin : InTxn s upd) :
    ((changesOf s d).map TxnChange.list).Nodup := by
  refine List.Nodup.of_map (fun r => (s.1.heap.lists r).id) ?_
  rw [List.map_map]
  exact (List.filter_sublist.map _).nodup hin.nodup_changes

end Changes

/-! ## Rendering a transaction -/

structure RenderedTxn (o : SetOrder String) (s : Txn) (h' : Heap Acl) : Prop where
  next : h'.next = s.1.heap.next
  same : ∀ r, (h'.lists r).id = (s.1.heap.lists r).id ∧
    (h'.lists r).rules = (s.1.heap.lists r).rules ∧
    (h'.lists r).interfaces = (s.1.heap.lists r).interfaces
  outside : ∀ r, (∀ d, ¬ Changed s d r) → h'.lists r = s.1.heap.lists r
  priv : ∀ d r, Changed s d r → (s.1.heap.lists r).interfaces ≠ ∅ →
    (h'.lists r).priv = opValue o d (s.1.heap.lists r) (previous s d r)

def opsOf (o : SetOrder String) (s : Txn) (d : TrafficDirection) : List TxnOp :=
  (changesOf s d).map (changeOp o d s.1.heap)

section RenderTxn

variable {s : Txn} {upd : TrafficDirection → String → Option Rules}
  {o : SetOrder String}

theorem Changed.uses {d : TrafficDirection} {r : Ref}
    (hr : Changed s d r) : Uses s d r :=
  Or.inr hr.1

theorem renderTxn_ok (hin : InTxn s upd) (hassert : ∀ d, ∀ change ∈ changesOf s d,
      Assertable s.1.heap change) :
    ∃ h₁ h₂, renderChanges o .ingress (changesOf s .ingress) (s.1.heap, []) =
        .ok (h₁, opsOf o s .ingress) ∧
      renderChanges o .egress (changesOf s .egress) (h₁, opsOf o s .ingress) =
        .ok (h₂, opsOf o s .ingress ++ opsOf o s .egress) ∧
      RenderedTxn o s h₂ := by
  obtain ⟨h₁, hrun₁, hr₁⟩ := @renderChanges_ok o .ingress s.1.heap _
    (nodup_changesOf hin) (hassert .ingress) []
  have hkept : ∀ r, Uses s .egress r → h₁.lists r = s.1.heap.lists r := by
    intro r hr
    refine hr₁.outside r fun change hmem heq => ?_
    have hin' := (mem_changesOf.mp hmem).1.uses
    rw [heq] at hin'
    exact hin.apart .ingress .egress (by decide) r hin' hr
  have hkept' : ∀ change ∈ changesOf s .egress,
      h₁.lists change.list = s.1.heap.lists change.list :=
    fun change hmem => hkept _ (mem_changesOf.mp hmem).1.uses
  have hassert' : ∀ change ∈ changesOf s .egress, Assertable h₁ change := by
    intro change hmem
    rw [Assertable, hkept' change hmem]
    exact hassert .egress change hmem
  obtain ⟨h₂, hrun₂, hr₂⟩ := @renderChanges_ok o .egress h₁ _
    (nodup_changesOf hin) hassert' (opsOf o s .ingress)
  have hops : (changesOf s .egress).map (changeOp o .egress h₁) =
      opsOf o s .egress := by
    refine List.map_congr_left fun change hmem => ?_
    rw [changeOp, changeOp, hkept' change hmem]
  rw [hops] at hrun₂
  have hlater : ∀ r, Uses s .ingress r → h₂.lists r = h₁.lists r := by
    intro r hr
    refine hr₂.outside r fun change hmem heq => ?_
    have hin' := (mem_changesOf.mp hmem).1.uses
    rw [heq] at hin'
    exact hin.apart .egress .ingress (by decide) r hin' hr
  refine ⟨h₁, h₂, hrun₁, hrun₂, hr₂.next.trans hr₁.next, fun r => ?_,
    fun r hr => ?_, fun d r hr hne => ?_⟩
  · obtain ⟨hid, hrules, hifs⟩ := hr₂.same r
    obtain ⟨hid', hrules', hifs'⟩ := hr₁.same r
    exact ⟨hid.trans hid', hrules.trans hrules', hifs.trans hifs'⟩
  · rw [hr₂.outside r fun change hmem heq =>
      hr .egress (heq ▸ (mem_changesOf.mp hmem).1),
      hr₁.outside r fun change hmem heq =>
        hr .ingress (heq ▸ (mem_changesOf.mp hmem).1)]
  · have hmem : (⟨r, previous s d r⟩ : TxnChange) ∈ changesOf s d :=
      mem_changesOf.mpr ⟨hr, rfl⟩
    cases d with
    | ingress =>
        rw [hlater r hr.uses]
        exact hr₁.priv _ hmem hne
    | egress =>
        have hpriv := hr₂.priv _ hmem
        rw [hkept' _ hmem] at hpriv
        exact hpriv hne

end RenderTxn

/-! ## Sending and saving -/

/-- What the second half of a commit does.  VPP gets the operations, and the
cache the transaction, unless there is nothing to render. -/
structure Saved (c : CommitChoices) (vpp : VppACLs) (s : Txn)
    (r' : Renderer) : Prop where
  put : ∀ d r, Changed s d r → r'.vpp (s.1.heap.lists r).id =
    opValue c.render d (s.1.heap.lists r) (previous s d r)
  rest : ∀ name, (∀ d r, Changed s d r → (s.1.heap.lists r).id ≠ name) →
    r'.vpp name = vpp name
  cache : ((∀ d r, ¬ Changed s d r) ∧ r'.cache = s.1) ∨
    ∃ h', RenderedTxn c.render s h' ∧
      r'.cache = commitTxn c.commit ({ s.1 with heap := h' }, s.2)

section Save

variable {s : Txn} {upd : TrafficDirection → String → Option Rules}
  {o : SetOrder String}

theorem mem_opsOf {d : TrafficDirection} {op : TxnOp} :
    op ∈ opsOf o s d ↔ ∃ r, Changed s d r ∧ op = ((s.1.heap.lists r).id,
        opValue o d (s.1.heap.lists r) (previous s d r)) := by
  unfold opsOf
  rw [List.mem_map]
  constructor
  · rintro ⟨change, hmem, heq⟩
    obtain ⟨hchanged, hprev⟩ := mem_changesOf.mp hmem
    refine ⟨change.list, hchanged, ?_⟩
    rw [← heq, changeOp, hprev]
  · rintro ⟨r, hr, heq⟩
    exact ⟨⟨r, previous s d r⟩, mem_changesOf.mpr ⟨hr, rfl⟩, heq.symm⟩

theorem nodup_opsOf (hin : InTxn s upd) :
    ((opsOf o s .ingress ++ opsOf o s .egress).map Prod.fst).Nodup := by
  have hside : ∀ d, ((opsOf o s d).map Prod.fst).Nodup := by
    intro d
    have hnodup := @nodup_changesOf s upd d hin
    unfold opsOf
    rw [List.map_map, List.Nodup, List.pairwise_map]
    rw [List.Nodup, List.pairwise_map] at hnodup
    refine (List.Pairwise.and_mem.mp hnodup).imp fun {a b} h heq => h.2.2 ?_
    exact (hin.pending d).headWF.eq_of_id (mem_changesOf.mp h.1).1.1
      (mem_changesOf.mp h.2.1).1.1 heq
  rw [List.map_append, List.nodup_append]
  refine ⟨hside .ingress, hside .egress, ?_⟩
  intro name hname name' hname'
  obtain ⟨op, hop, heq⟩ := List.mem_map.mp hname
  obtain ⟨op', hop', heq'⟩ := List.mem_map.mp hname'
  obtain ⟨r, hr, hval⟩ := mem_opsOf.mp hop
  obtain ⟨r', hr', hval'⟩ := mem_opsOf.mp hop'
  rw [← heq, ← heq', hval, hval']
  exact hin.id_ne (by decide) hr.uses hr'.uses

theorem renderAndSave_ok (hin : InTxn s upd) (c : CommitChoices)
    (vpp : VppACLs) (hassert : ∀ d, ∀ change ∈ changesOf s d,
      Assertable s.1.heap change) :
    ∃ r', renderAndSave c vpp s = .ok r' ∧ Saved c vpp s r' := by
  unfold renderAndSave
  by_cases hnone : changesOf s .ingress = [] ∧ changesOf s .egress = []
  · have hunchanged : ∀ d r, ¬ Changed s d r := by
      intro d
      cases d with
      | ingress => exact changesOf_eq_nil_iff.mp hnone.1
      | egress => exact changesOf_eq_nil_iff.mp hnone.2
    rw [if_pos hnone]
    exact ⟨_, rfl, fun d r hr => absurd hr (hunchanged d r),
      fun _ _ => rfl, Or.inl ⟨hunchanged, rfl⟩⟩
  · obtain ⟨h₁, h₂, hrun₁, hrun₂, hrendered⟩ :=
      @renderTxn_ok s upd c.render hin hassert
    rw [if_neg hnone, hrun₁]
    simp only [bind, Except.bind, hrun₂]
    refine ⟨_, rfl, ?_, ?_, Or.inr ⟨h₂, hrendered, rfl⟩⟩
    · intro d r hr
      refine assignAll_of_mem (nodup_opsOf hin) ?_
      cases d with
      | ingress =>
          exact List.mem_append_left _ (mem_opsOf.mpr ⟨r, hr, rfl⟩)
      | egress =>
          exact List.mem_append_right _ (mem_opsOf.mpr ⟨r, hr, rfl⟩)
    · intro name hname
      refine assignAll_of_notMem fun op hop => ?_
      rcases List.mem_append.mp hop with hop | hop
      · obtain ⟨r, hr, heq⟩ := mem_opsOf.mp hop
        rw [heq]
        exact hname .ingress r hr
      · obtain ⟨r, hr, heq⟩ := mem_opsOf.mp hop
        rw [heq]
        exact hname .egress r hr

end Save

end ContivVPP.AclRenderer
