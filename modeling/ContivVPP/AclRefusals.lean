import ContivVPP.AclRendererRun

/-!
# Transactions that VPP refuses

VPP may refuse the transaction of a `Commit`.  Its error is then returned and
the cache is not committed, but the lists of the changes have been rendered by
then: each holds an ACL that VPP has never got.  These lists belong to the
transaction and not to the cache, so that the next transaction starts again
from what VPP has.
-/

namespace ContivVPP.AclRenderer

open K8s ContivVPP.Renderer GoMap RuleCache

/-! ## Transactions with replies -/

/-- `Commit` without resync, after the updates.  The reply to the transaction
is an error if VPP refuses it; then nothing is saved, and the error is
returned. -/
def renderAndSend (c : CommitChoices) (reply : Option String) (vpp : VppACLs)
    (s : State Acl × ContivRuleCacheTxn) :
    Except Failure (Renderer × Option String) :=
  if changesOf s .ingress = [] ∧ changesOf s .egress = [] then
    .ok (⟨s.1, vpp⟩, none)
  else do
    let res ← renderChanges c.render .ingress (changesOf s .ingress)
      (s.1.heap, [])
    let res ← renderChanges c.render .egress (changesOf s .egress) res
    match reply with
    | some err => return (⟨{ s.1 with heap := res.1 }, vpp⟩, some err)
    | none =>
        return (⟨commitTxn c.commit ({ s.1 with heap := res.1 }, s.2),
          assignAll res.2 vpp⟩, none)

structure Attempt extends Transaction where
  reply : Option String

/-- The transaction of an attempt, with its updates made. -/
def Attempt.txn (a : Attempt) (r : Renderer) : Txn :=
  ((range a.choices.config a.config).map (updateCall a.choices)).foldl update
    (r.cache, newTxn)

structure Attempted where
  renderer : Renderer
  committed : List Transaction

def attempt (s : Attempted) (a : Attempt) : Except Failure Attempted := do
  let res ← renderAndSend a.choices a.reply s.renderer.vpp (a.txn s.renderer)
  return ⟨res.1, if res.2 = none then s.committed ++ [a.toTransaction]
    else s.committed⟩

def attemptAll (attempts : List Attempt) : Except Failure Attempted :=
  attempts.foldlM attempt ⟨⟨init, fun _ => none⟩, []⟩

section Attempts

variable {s : Txn} {upd last : TrafficDirection → String → Option Rules}
  {vpp : VppACLs} {o : SetOrder String}

theorem renderAndSend_none (c : CommitChoices) (vpp : VppACLs) (s : Txn) :
    renderAndSend c none vpp s =
      (renderAndSave c vpp s).map fun r => (r, none) := by
  unfold renderAndSend renderAndSave
  split_ifs
  · rfl
  · cases renderChanges c.render .ingress (changesOf s .ingress)
        (s.1.heap, []) with
    | error => rfl
    | ok res =>
        change (renderChanges c.render .egress (changesOf s .egress) res >>=
          _) = Except.map _ (renderChanges c.render .egress
            (changesOf s .egress) res >>= _)
        cases renderChanges c.render .egress (changesOf s .egress) res <;> rfl

theorem renderAndSend_of_unchanged (c : CommitChoices) (reply : Option String)
    (vpp : VppACLs) (h : changesOf s .ingress = [] ∧ changesOf s .egress = []) :
    renderAndSend c reply vpp s = renderAndSend c none vpp s := by
  simp only [renderAndSend, if_pos h]

theorem Inv.refused {h' : Heap Acl} (hinv : Inv ⟨s.1, vpp⟩ last)
    (hin : InTxn s upd) (hrendered : RenderedTxn o s h') :
    Inv ⟨{ s.1 with heap := h' }, vpp⟩ last := by
  have hbase : ∀ {d q}, q ∈ (s.1.cache.lists d).refs →
      h'.lists q = s.1.heap.lists q :=
    fun hq => hrendered.lists_of_base hin hq
  have hin' := hrendered.inTxn hin
  have huse : ∀ {d q}, InUse { s.1 with heap := h' } d q ↔ InUse s.1 d q := by
    intro d q
    constructor
    · intro hq
      have hmem : q ∈ (s.1.cache.lists d).refs := hq.mem
      exact ⟨hmem, hbase hmem ▸ hq.interfaces, hbase hmem ▸ hq.rules⟩
    · intro hq
      exact ⟨hq.mem, (hbase hq.mem).symm ▸ hq.interfaces,
        (hbase hq.mem).symm ▸ hq.rules⟩
  refine ⟨⟨fun d => (hin'.pending d).baseWF, fun d => (hin'.pending d).baseIDs,
    hinv.consistent.apart⟩, fun d x => ?_, fun d q hq => ?_,
    fun d q hq => ?_, fun name acl hacl => ?_⟩
  · rw [← hinv.rules d x]
    cases hq : (s.1.cache.lists d).byInterface x with
    | none => rfl
    | some q =>
        rw [Option.map_some, Option.map_some,
          hbase (((hinv.consistent.wf d).byInterface_iff x q).mp hq).1]
  · have hq := huse.mp hq
    simp only [hbase hq.mem]
    exact hinv.kept d q hq
  · have hq := huse.mp hq
    simp only [hbase hq.mem]
    exact hinv.stored d q hq
  · obtain ⟨d, q, hq, hid⟩ := hinv.only name acl hacl
    exact ⟨d, q, huse.mpr hq, (congrArg _ (hbase hq.mem)).trans hid⟩

end Attempts

theorem lastRendered_append (txns : List Transaction) (txn : Transaction) :
    lastRendered (txns ++ [txn]) = noteTransaction (lastRendered txns) txn := by
  rw [lastRendered, List.foldl_append]
  rfl

theorem attempt_eq_ok {s : Attempted} {a : Attempt} {r : Renderer}
    {err : Option String}
    (h : renderAndSend a.choices a.reply s.renderer.vpp (a.txn s.renderer) =
      .ok (r, err)) :
    attempt s a = .ok ⟨r, if err = none then s.committed ++ [a.toTransaction]
      else s.committed⟩ := by
  rw [attempt, h]
  rfl

section

variable {s : Attempted} (h : Inv s.renderer (lastRendered s.committed))
include h

theorem Inv.accepted (a : Attempt)
    (hsend : renderAndSend a.choices a.reply s.renderer.vpp (a.txn s.renderer)
      = renderAndSend a.choices none s.renderer.vpp (a.txn s.renderer)) :
    ∃ r, AclRenderer.attempt s a = .ok ⟨r, s.committed ++ [a.toTransaction]⟩ ∧
      Inv r (lastRendered (s.committed ++ [a.toTransaction])) := by
  obtain ⟨r, hstep, hinv⟩ := h.step a.toTransaction
  have hsave : AclRenderer.renderAndSave a.choices s.renderer.vpp
      (a.txn s.renderer) = .ok r := hstep
  have hsent : renderAndSend a.choices a.reply s.renderer.vpp
      (a.txn s.renderer) = .ok (r, none) := by
    rw [hsend, renderAndSend_none, hsave]
    rfl
  exact ⟨r, attempt_eq_ok hsent, lastRendered_append s.committed _ ▸ hinv⟩

theorem Inv.rejected (a : Attempt)
    (hchanges : ¬ (changesOf (a.txn s.renderer) .ingress = [] ∧ changesOf
      (a.txn s.renderer) .egress = [])) {err : String}
    (hreply : a.reply = some err) :
    ∃ r, AclRenderer.attempt s a = .ok ⟨r, s.committed⟩ ∧
      Inv r (lastRendered s.committed) := by
  have hnew := inTxn_newTxn h.consistent
  have hin : InTxn (a.txn s.renderer) _ := hnew.foldl_update _
  have hpriv : TxnPriv (a.txn s.renderer) :=
    hnew.txnPriv_foldl_update (txnPriv_newTxn _) _
  have hinv : Inv ⟨(a.txn s.renderer).1, s.renderer.vpp⟩
      (lastRendered s.committed) := h.foldl_update _
  have hnamed : ∀ d b, InUse (a.txn s.renderer).1 d b → ∃ acl,
      ((a.txn s.renderer).1.heap.lists b).priv = some acl ∧
        acl.aclName = ((a.txn s.renderer).1.heap.lists b).id := by
    intro d b huse
    obtain ⟨acl, hacl, hname, _⟩ := hinv.kept d b huse
    exact ⟨acl, hacl, hname⟩
  obtain ⟨h₁, h₂, hingress, hegress, hrendered⟩ :=
    renderTxn_ok (o := a.choices.render) hin fun d change hmem =>
      assertable_of_inUse hin hpriv hnamed hmem
  have hsend : renderAndSend a.choices a.reply s.renderer.vpp
      (a.txn s.renderer) = .ok (⟨{ (a.txn s.renderer).1 with heap := h₂ },
        s.renderer.vpp⟩, some err) := by
    rw [renderAndSend, if_neg hchanges, hingress, hreply]
    change renderChanges a.choices.render .egress _ _ >>= _ = _
    rw [hegress]
    rfl
  exact ⟨_, attempt_eq_ok hsend, hinv.refused hin hrendered⟩

theorem Inv.attempt (a : Attempt) : ∃ s', AclRenderer.attempt s a = .ok s' ∧
      Inv s'.renderer (lastRendered s'.committed) := by
  by_cases hchanges : changesOf (a.txn s.renderer) .ingress = [] ∧
      changesOf (a.txn s.renderer) .egress = []
  · obtain ⟨r, hattempt, hinv⟩ := h.accepted a
      (renderAndSend_of_unchanged a.choices a.reply _ hchanges)
    exact ⟨_, hattempt, hinv⟩
  · cases hreply : a.reply with
    | none =>
        obtain ⟨r, hattempt, hinv⟩ := h.accepted a (by rw [hreply])
        exact ⟨_, hattempt, hinv⟩
    | some err =>
        obtain ⟨r, hattempt, hinv⟩ := h.rejected a hchanges hreply
        exact ⟨_, hattempt, hinv⟩

theorem Inv.attemptAll (attempts : List Attempt) :
    ∃ s', attempts.foldlM AclRenderer.attempt s = .ok s' ∧
      Inv s'.renderer (lastRendered s'.committed) := by
  induction attempts generalizing s with
  | nil => exact ⟨s, rfl, h⟩
  | cons a attempts ih =>
      obtain ⟨s₁, hstep, hinv⟩ := h.attempt a
      obtain ⟨s', hrun, hinv'⟩ := ih hinv
      refine ⟨s', ?_, hinv'⟩
      rw [List.foldlM_cons, hstep]
      exact hrun

end

end ContivVPP.AclRenderer
