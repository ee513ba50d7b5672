import Mathlib.Data.List.Infix

/-!
# Conditions on the steps of a run

A run is a list of actions.  A property of runs may hold after every action
just if each action meets a condition on the run before it.  To show this, one
finds an invariant that implies the property, such that an action keeps the
invariant if it meets the condition, and breaks the property if it does not.
-/

namespace ContivVPP.RunCondition

variable {α : Type*} {P Q : List α → Prop} {C : List α → α → Prop} {run : List α}

theorem forall_prefix_of_steps (hnil : Q [])
    (hkeep : ∀ before a, before ++ [a] <+: run → Q before → C before a →
      Q (before ++ [a]))
    (hrun : ∀ before a, before ++ [a] <+: run → C before a)
    {before : List α} (hpre : before <+: run) : Q before := by
  induction before using List.reverseRecOn with
  | nil => exact hnil
  | append_singleton before a ih =>
      exact hkeep before a hpre (ih ((List.prefix_append before [a]).trans hpre))
        (hrun before a hpre)

theorem forall_prefix_iff (hnil : Q []) (hQP : ∀ before, Q before → P before)
    (hkeep : ∀ before a, before ++ [a] <+: run → Q before → C before a →
      Q (before ++ [a]))
    (hbreak : ∀ before a, before ++ [a] <+: run → Q before →
      P (before ++ [a]) → C before a) :
    (∀ before, before <+: run → P before) ↔
      ∀ before a, before ++ [a] <+: run → C before a := by
  constructor
  · intro hall before
    -- The invariant holds before each action, since the property did not
    -- break until then.
    have hinv : ∀ a, before ++ [a] <+: run → Q before := by
      induction before using List.reverseRecOn with
      | nil => exact fun _ _ => hnil
      | append_singleton before b ih =>
          intro a hpre
          have hb := (List.prefix_append (before ++ [b]) [a]).trans hpre
          exact hkeep before b hb (ih b hb)
            (hbreak before b hb (ih b hb) (hall _ hb))
    exact fun a hpre =>
      hbreak before a hpre (hinv a hpre) (hall _ hpre)
  · intro hrun before hpre
    exact hQP before (forall_prefix_of_steps hnil hkeep hrun hpre)

end ContivVPP.RunCondition
