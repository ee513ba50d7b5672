import ContivVPP.RunCondition

/-!
# Incremental processing

For each part of an input a value is recorded that was computed from the
input.  When the input changes, some of the parts are processed again.  The
records stay up to date just if no other part has a new value.
-/

namespace ContivVPP.Incremental

variable {ι γ β : Type*} {relevant : γ → ι → Prop} {want : γ → ι → β}
  {input input' : γ} {recorded recorded' : ι → β} {processed : ι → Prop}

def UpToDate (relevant : γ → ι → Prop) (want : γ → ι → β) (input : γ)
    (recorded : ι → β) : Prop :=
  ∀ x, relevant input x → recorded x = want input x

structure Step (relevant : γ → ι → Prop) (want : γ → ι → β)
    (processed : ι → Prop) (recorded : ι → β) (input' : γ)
    (recorded' : ι → β) : Prop where
  current : ∀ x, relevant input' x → processed x → recorded' x = want input' x
  kept : ∀ x, ¬ processed x → recorded' x = recorded x

/-- Parts that are not processed have not got a new value.  For a part that
was not relevant before, what matters is its record. -/
structure Covers (relevant : γ → ι → Prop) (want : γ → ι → β)
    (processed : ι → Prop) (input : γ) (recorded : ι → β) (input' : γ) :
    Prop where
  stays : ∀ x, relevant input x → relevant input' x → ¬ processed x →
    want input' x = want input x
  enters : ∀ x, ¬ relevant input x → relevant input' x → ¬ processed x →
    want input' x = recorded x

theorem Step.upToDate_iff
    (h : Step relevant want processed recorded input' recorded')
    (hbefore : UpToDate relevant want input recorded) :
    UpToDate relevant want input' recorded' ↔
      Covers relevant want processed input recorded input' := by
  constructor
  · intro hafter
    constructor
    · intro x hx hx' hnot
      rw [← hafter x hx', h.kept x hnot, hbefore x hx]
    · intro x _ hx' hnot
      rw [← hafter x hx', h.kept x hnot]
  · intro hcovers x hx'
    by_cases hprocessed : processed x
    · exact h.current x hx' hprocessed
    · rw [h.kept x hprocessed]
      by_cases hx : relevant input x
      · rw [hbefore x hx, hcovers.stays x hx hx' hprocessed]
      · rw [hcovers.enters x hx hx' hprocessed]

theorem Covers.of_congr {input'' : γ} {processed' : ι → Prop}
    (h : Covers relevant want processed input recorded input')
    (hrelevant : ∀ x, relevant input'' x → relevant input' x)
    (hwant : ∀ x, relevant input'' x → want input'' x = want input' x)
    (hprocessed : ∀ x, processed x → processed' x) :
    Covers relevant want processed' input recorded input'' where
  stays x hx hx' hnot := by
    rw [hwant x hx']
    exact h.stays x hx (hrelevant x hx') fun hp => hnot (hprocessed x hp)
  enters x hx hx' hnot := by
    rw [hwant x hx']
    exact h.enters x hx (hrelevant x hx') fun hp => hnot (hprocessed x hp)

theorem covers_of_same (hrelevant : ∀ x, relevant input' x → relevant input x)
    (hwant : ∀ x, relevant input' x → want input' x = want input x) :
    Covers relevant want processed input recorded input' where
  stays x _ hx' _ := hwant x hx'
  enters x hx hx' _ := absurd (hrelevant x hx') hx

end ContivVPP.Incremental
