import Mathlib.Tactic
import ContivVPP.RunCondition

/-!
# Delayed events of the policy plugin

Two goroutines handle the events of the policy plugin.  The one receives
resync and change events, and delays them while a resync is pending.  The
other one applies what has been delayed once it is told that resync has
started.  Each holds the lock while it handles an event, so that a run is a
sequence of these critical sections.

What matters of the policy cache is which of its functions is called with which
event; the calls are recorded in order.  `PolicyCache.Resync` has no failure,
while `PolicyCache.Update` may fail for any event.
-/

namespace ContivVPP.PolicyPlugin

variable {R C : Type*}

inductive Call (R C : Type*) where
  | resync (ev : R)
  | update (ev : C)
  deriving DecidableEq, Repr

structure Plugin (R C : Type*) where
  pendingResync : Option R
  pendingChanges : List C
  calls : List (Call R C)
  deriving DecidableEq, Repr

def init : Plugin R C := ⟨none, [], []⟩

/-- A critical section.  A status event says whether resync has started, and
`fails` says for which delayed changes `Update` will return an error. -/
inductive Action (R C : Type*) where
  | resyncEvent (ev : R)
  | changeEvent (ev : C)
  | statusEvent (started : Bool) (fails : ℕ → Bool)

/-- The calls of the loop over the delayed changes from the `i`-th on.  The
loop ends after the first error. -/
def replay (fails : ℕ → Bool) : ℕ → List C → List (Call R C)
  | _, [] => []
  | i, ev :: evs =>
      .update ev :: if fails i then [] else replay fails (i + 1) evs

def watchResync (p : Plugin R C) (ev : R) : Plugin R C :=
  { p with pendingResync := some ev, pendingChanges := [] }

def watchChange (p : Plugin R C) (ev : C) : Plugin R C :=
  match p.pendingResync with
  | some _ => { p with pendingChanges := p.pendingChanges ++ [ev] }
  | none => { p with calls := p.calls ++ [.update ev] }

def handleResync (p : Plugin R C) (started : Bool) (fails : ℕ → Bool) :
    Plugin R C :=
  match started, p.pendingResync with
  | true, some ev =>
      ⟨none, [], p.calls ++ .resync ev :: replay fails 0 p.pendingChanges⟩
  | _, _ => p

def step (p : Plugin R C) : Action R C → Plugin R C
  | .resyncEvent ev => watchResync p ev
  | .changeEvent ev => watchChange p ev
  | .statusEvent started fails => handleResync p started fails

def run (actions : List (Action R C)) : Plugin R C :=
  actions.foldl step init

/-! ## What should be delivered -/

def changes (actions : List (Action R C)) : List C :=
  actions.filterMap fun action =>
    match action with
    | .changeEvent ev => some ev
    | _ => none

def NoResync (actions : List (Action R C)) : Prop :=
  ∀ ev, .resyncEvent ev ∉ actions

/-- The state after a run that received a resync event and no other one after
it.  Either the resync is pending, and all changes since then are delayed, or
it has been applied, and then all changes since then, each once and in
order.  Nothing else has been passed on since then. -/
def Since (p : Plugin R C) (before : List (Action R C)) (ev : R)
    (after : List (Action R C)) : Prop :=
  (p.pendingResync = some ev ∧ p.pendingChanges = changes after ∧
      p.calls = (run before).calls) ∨
    (p.pendingResync = none ∧ p.calls = (run before).calls ++
      .resync ev :: (changes after).map .update)

instance [DecidableEq R] [DecidableEq C] (p : Plugin R C)
    (before : List (Action R C)) (ev : R) (after : List (Action R C)) :
    Decidable (Since p before ev after) :=
  inferInstanceAs (Decidable (_ ∨ _))

structure Delivered (actions : List (Action R C)) : Prop where
  unresynced : NoResync actions →
    (run actions).calls = (changes actions).map .update
  resynced : ∀ before ev after, actions = before ++ .resyncEvent ev :: after →
    NoResync after → Since (run actions) before ev after
  started : ∀ before fails, actions = before ++ [.statusEvent true fails] →
    (run actions).pendingResync = none
  queue : (run actions).pendingResync = none → (run actions).pendingChanges = []

/-- `Update` fails for none of the delayed changes except perhaps the last. -/
def NoEarlyError (p : Plugin R C) : Action R C → Prop
  | .statusEvent true fails => p.pendingResync ≠ none →
      ∀ i, i + 1 < p.pendingChanges.length → fails i = false
  | _ => True

/-! ## The loop over the delayed changes -/

theorem replay_eq_map_iff (fails : ℕ → Bool) (i : ℕ) (evs : List C) :
    (replay fails i evs : List (Call R C)) = evs.map .update ↔
      ∀ j, j + 1 < evs.length → fails (i + j) = false := by
  induction evs generalizing i with
  | nil => simp [replay]
  | cons ev evs ih =>
      cases evs with
      | nil => cases hfail : fails i <;> simp [replay, hfail]
      | cons ev' evs =>
          rw [replay, List.map_cons, List.cons.injEq, and_iff_right rfl]
          constructor
          · intro h j hj
            cases hfail : fails i with
            | true => simp [hfail] at h
            | false =>
                simp only [hfail, Bool.false_eq_true, if_false] at h
                cases j with
                | zero => exact hfail
                | succ j =>
                    rw [show i + (j + 1) = i + 1 + j by omega]
                    exact (ih (i + 1)).mp h j (by simpa using hj)
          · intro h
            have hfail : fails i = false := h 0 (by simp)
            simp only [hfail, Bool.false_eq_true, if_false]
            refine (ih (i + 1)).mpr fun j hj => ?_
            rw [show i + 1 + j = i + (j + 1) by omega]
            exact h (j + 1) (by simpa using hj)

/-! ## Runs -/

section Run

variable {actions : List (Action R C)} {action : Action R C}

theorem run_concat (actions : List (Action R C)) (action : Action R C) :
    run (actions ++ [action]) = step (run actions) action := by
  simp [run]

theorem changes_concat (actions : List (Action R C)) (action : Action R C) :
    changes (actions ++ [action]) = changes actions ++ changes [action] := by
  simp [changes]

theorem noResync_concat : NoResync (actions ++ [action]) ↔
    NoResync actions ∧ ∀ ev, action ≠ .resyncEvent ev := by
  unfold NoResync
  simp only [List.mem_append, List.mem_singleton, not_or, forall_and,
    ne_eq, eq_comm]

theorem exists_lastResync (actions : List (Action R C)) :
    NoResync actions ∨ ∃ before ev after,
      actions = before ++ .resyncEvent ev :: after ∧ NoResync after := by
  induction actions using List.reverseRecOn with
  | nil => exact Or.inl fun ev => List.not_mem_nil
  | append_singleton actions action ih =>
      by_cases hev : ∃ ev, action = .resyncEvent ev
      · obtain ⟨ev, rfl⟩ := hev
        exact Or.inr ⟨actions, ev, [], rfl, fun ev' => List.not_mem_nil⟩
      · push Not at hev
        rcases ih with hnone | ⟨before, ev, after, heq, hafter⟩
        · exact Or.inl (noResync_concat.mpr ⟨hnone, hev⟩)
        · exact Or.inr ⟨before, ev, after ++ [action], by simp [heq],
            noResync_concat.mpr ⟨hafter, hev⟩⟩

theorem pendingResync_of_noResync (h : NoResync actions) :
    (run actions).pendingResync = none := by
  induction actions using List.reverseRecOn with
  | nil => rfl
  | append_singleton actions action ih =>
      obtain ⟨hbefore, hev⟩ := noResync_concat.mp h
      have ih := ih hbefore
      rw [run_concat]
      cases action with
      | resyncEvent ev => exact absurd rfl (hev ev)
      | changeEvent ev => simp [step, watchChange, ih]
      | statusEvent started fails =>
          cases started <;> simp [step, handleResync, ih]

theorem queue_empty (actions : List (Action R C)) :
    (run actions).pendingResync = none → (run actions).pendingChanges = [] := by
  induction actions using List.reverseRecOn with
  | nil => exact fun _ => rfl
  | append_singleton actions action ih =>
      rw [run_concat]
      cases action with
      | resyncEvent ev => simp [step, watchResync]
      | changeEvent ev =>
          cases hpending : (run actions).pendingResync with
          | none => simpa [step, watchChange, hpending] using ih hpending
          | some ev' => simp [step, watchChange, hpending]
      | statusEvent started fails =>
          cases started <;>
            cases hpending : (run actions).pendingResync <;>
            simp [step, handleResync, hpending] <;> exact ih hpending

theorem pendingResync_started (actions : List (Action R C)) (fails : ℕ → Bool) :
    (run (actions ++ [.statusEvent true fails])).pendingResync = none := by
  rw [run_concat]
  cases hpending : (run actions).pendingResync <;>
    simp [step, handleResync, hpending]

theorem Since.step {p : Plugin R C} {before after : List (Action R C)}
    {ev : R} (h : Since p before ev after)
    (hev : ∀ ev', action ≠ .resyncEvent ev')
    (hok : NoEarlyError p action) :
    Since (step p action) before ev (after ++ [action]) := by
  unfold Since
  rw [changes_concat]
  cases action with
  | resyncEvent ev' => exact absurd rfl (hev ev')
  | changeEvent c =>
      rcases h with ⟨hpending, hqueue, hcalls⟩ | ⟨hpending, hcalls⟩
      · left
        simp [PolicyPlugin.step, watchChange, hpending, hqueue, hcalls, changes]
      · right
        simp [PolicyPlugin.step, watchChange, hpending, hcalls, changes]
  | statusEvent started fails =>
      have hnone : changes [(.statusEvent started fails : Action R C)] = [] :=
        rfl
      rw [hnone, List.append_nil]
      rcases h with ⟨hpending, hqueue, hcalls⟩ | ⟨hpending, hcalls⟩
      · cases started with
        | false =>
            left
            simp [PolicyPlugin.step, handleResync, hpending, hqueue, hcalls]
        | true =>
            right
            have hreplay := (replay_eq_map_iff (R := R) fails 0
              p.pendingChanges).mpr
              (by simpa using hok (by rw [hpending]; simp))
            rw [hqueue] at hreplay
            simp [PolicyPlugin.step, handleResync, hpending, hcalls, hqueue,
              hreplay]
      · right
        cases started <;>
          simp [PolicyPlugin.step, handleResync, hpending, hcalls]

theorem Delivered.step (h : Delivered actions)
    (hok : NoEarlyError (run actions) action) :
    Delivered (actions ++ [action]) where
  unresynced hnone := by
    obtain ⟨hbefore, hev⟩ := noResync_concat.mp hnone
    have hpending := pendingResync_of_noResync hbefore
    rw [run_concat, changes_concat, List.map_append, ← h.unresynced hbefore]
    cases action with
    | resyncEvent ev => exact absurd rfl (hev ev)
    | changeEvent ev =>
        simp [PolicyPlugin.step, watchChange, hpending, changes]
    | statusEvent started fails =>
        cases started <;>
          simp [PolicyPlugin.step, handleResync, hpending, changes]
  resynced before ev after heq hafter := by
    rw [run_concat]
    rcases List.eq_nil_or_concat after with hnil | ⟨after', last, hconcat⟩
    · subst hnil
      obtain ⟨hbefore, hlast⟩ := List.append_inj' heq rfl
      rw [← hbefore, List.singleton_inj.mp hlast]
      exact Or.inl ⟨rfl, rfl, rfl⟩
    · rw [List.concat_eq_append] at hconcat
      subst hconcat
      have hsplit : actions ++ [action] =
          (before ++ .resyncEvent ev :: after') ++ [last] := by
        rw [heq]
        simp
      obtain ⟨hbefore, hlast⟩ := List.append_inj' hsplit rfl
      rw [← List.singleton_inj.mp hlast] at hafter ⊢
      obtain ⟨hafter', hev⟩ := noResync_concat.mp hafter
      exact (h.resynced before ev after' hbefore hafter').step hev hok
  started before fails heq := by
    rw [heq]
    exact pendingResync_started before fails
  queue := queue_empty _

theorem noEarlyError_of_delivered (h : Delivered actions)
    (h' : Delivered (actions ++ [action])) :
    NoEarlyError (run actions) action := by
  cases action with
  | resyncEvent ev => trivial
  | changeEvent ev => trivial
  | statusEvent started fails =>
      cases started with
      | false => trivial
      | true =>
          intro hpending i hi
          rcases exists_lastResync actions with
            hnone | ⟨before, ev, after, heq, hafter⟩
          · exact absurd (pendingResync_of_noResync hnone) hpending
          · have hconcat : NoResync (after ++ [.statusEvent true fails]) :=
              noResync_concat.mpr ⟨hafter, by simp⟩
            have hstarted := pendingResync_started actions fails
            rcases h.resynced before ev after heq hafter with
              ⟨hev, hqueue, hcalls⟩ | ⟨hnone, _⟩
            · rcases h'.resynced before ev _ (by simp [heq]) hconcat with
                ⟨hsome, _⟩ | ⟨_, hcalls'⟩
              · rw [hstarted] at hsome
                cases hsome
              · have hreplay : (replay fails 0 (run actions).pendingChanges :
                    List (Call R C)) =
                    (run actions).pendingChanges.map .update := by
                  rw [run_concat, changes_concat] at hcalls'
                  simpa [PolicyPlugin.step, handleResync, hev, hcalls,
                    hqueue, changes] using hcalls'
                have hok := (replay_eq_map_iff fails 0 _).mp hreplay i hi
                rwa [Nat.zero_add] at hok
            · exact absurd hnone hpending

end Run

theorem delivered_nil : Delivered ([] : List (Action R C)) where
  unresynced _ := rfl
  resynced before ev after heq := by simp at heq
  started before fails heq := by simp at heq
  queue _ := rfl

/-- The events are delivered as they should after every action of a run just if
in no action a delayed change fails that others follow. -/
theorem delivered_iff (actions : List (Action R C)) :
    (∀ before, before <+: actions → Delivered before) ↔
      ∀ before action, before ++ [action] <+: actions →
        NoEarlyError (run before) action :=
  RunCondition.forall_prefix_iff delivered_nil (fun _ h => h)
    (fun _ _ _ h hok => h.step hok)
    (fun _ _ _ h h' => noEarlyError_of_delivered h h')

/-- The first of two delayed changes fails, and the second one is lost. -/
theorem not_delivered_second :
    ¬ Delivered ([.resyncEvent (), .changeEvent 1, .changeEvent 2,
      .statusEvent true fun i => i = 0] : List (Action Unit ℕ)) := by
  intro h
  have hsince := h.resynced [] () [.changeEvent 1, .changeEvent 2,
    .statusEvent true fun i => i = 0] rfl (by intro ev hmem; simp at hmem)
  revert hsince
  decide

end ContivVPP.PolicyPlugin
