import ContivVPP.RequestBatches
import ContivVPP.RunCondition
import ContivVPP.SessionRuleCache

/-!
# Requests of the VPPTCP renderer

`updateRules` sends its requests to VPP in batches of the size of the buffers
of the channel.  It stops to read the replies of a batch at the first failure,
and leaves the other ones for the next call.
-/

namespace ContivVPP.SessionCache

open RequestBatches

/-! ## The channel -/

inductive VppReply where
  | error (err : String)
  | undecodable (err : String)
  | decoded (retval : Int32)
  deriving DecidableEq

def errMsg : String := "failed to update VPPTCP session rule"

def VppReply.failure : VppReply → Option String
  | .error err => some err
  | .undecodable err => some err
  | .decoded retval => if retval ≠ 0 then some errMsg else none

def chanBufSize (goVPPChanBufSize : ℕ) : ℕ+ :=
  if h : goVPPChanBufSize ≠ 0 then ⟨goVPPChanBufSize, Nat.pos_of_ne_zero h⟩
  else 100

abbrev VppLog := Log SessionRuleAddDel VppReply

/-! ## Calls of `updateRules` -/

structure RuleChanges where
  add : List SessionRule
  remove : List SessionRule

/-- The requests of a call, those that remove rules first. -/
def RuleChanges.requests (call : RuleChanges) : List SessionRuleAddDel :=
  call.remove.map (⟨·, false⟩) ++ call.add.map (⟨·, true⟩)

section Calls

variable (answers : ℕ → VppReply) (goVPPChanBufSize : ℕ)

/-- The log after a call, and the error that it returns.  The n-th request that
is ever sent gets the n-th answer. -/
def RuleChanges.update (log : VppLog) (call : RuleChanges) :
    VppLog × Option String :=
  exchange answers VppReply.failure (chanBufSize goVPPChanBufSize)
    call.requests log

def logAfter (calls : List RuleChanges) : VppLog :=
  calls.foldl (fun log call => (call.update answers goVPPChanBufSize log).1) []

structure Behaves (log : VppLog) (call : RuleChanges) : Prop where
  drained : Drained (call.update answers goVPPChanBufSize log).1
  reads : ∃ sent, sent <+: call.requests ∧
    requests (call.update answers goVPPChanBufSize log).1 = requests log ++ sent ∧
    replies (call.update answers goVPPChanBufSize log).1 = replies log ++
        (List.range' (requests log).length sent.length).map answers
  fits : FitsBetween (chanBufSize goVPPChanBufSize) log
    (call.update answers goVPPChanBufSize log).1
  succeeds : (call.update answers goVPPChanBufSize log).2 = none ↔
    requests (call.update answers goVPPChanBufSize log).1 =
      requests log ++ call.requests ∧
    ∀ i < call.requests.length,
      (answers ((requests log).length + i)).failure = none

/-- The first of the requests that fails, if there is one, is the last one of
its batch. -/
def FailureEndsBatch (sent : ℕ) (call : RuleChanges) : Prop :=
  ∀ k < call.requests.length, (answers (sent + k)).failure ≠ none →
    (∀ i < k, (answers (sent + i)).failure = none) →
    k + 1 = call.requests.length ∨ (chanBufSize goVPPChanBufSize : ℕ) ∣ k + 1

end Calls

section Call

variable {answers : ℕ → VppReply} {goVPPChanBufSize : ℕ} {log : VppLog}
  {call : RuleChanges}

theorem behaves_iff (hlog : Drained log) :
    Behaves answers goVPPChanBufSize log call ↔
      FailureEndsBatch answers goVPPChanBufSize (requests log).length call := by
  have hn : (replies log).length = (requests log).length := hlog
  rcases exchange_cases answers VppReply.failure
    (chanBufSize goVPPChanBufSize) call.requests log hlog with
    ⟨hall, log', heq, hexchanged⟩ |
    ⟨k, hk, err, hfails, log', heq, hexchanged⟩
  · rw [hn] at hall
    have hupdate : call.update answers goVPPChanBufSize log = (log', none) :=
      heq
    have hbehaves : Behaves answers goVPPChanBufSize log call := by
      refine ⟨?_, ⟨call.requests, List.prefix_refl _, ?_⟩, ?_, ?_⟩
      · rw [hupdate]
        exact (hexchanged.drained_iff hlog).mpr rfl
      · rw [hupdate, ← hn]
        exact ⟨hexchanged.requests_eq, hexchanged.replies_eq⟩
      · rw [hupdate]
        exact hexchanged.fits
      · rw [hupdate]
        exact iff_of_true rfl ⟨hexchanged.requests_eq, hall⟩
    refine iff_of_true hbehaves fun k hk hfails => ?_
    exact absurd (hall k hk) hfails
  · rw [hn] at hfails
    have hupdate : call.update answers goVPPChanBufSize log =
        (log', some err) := heq
    have hsize := (chanBufSize goVPPChanBufSize).pos
    have hdrained : Drained log' ↔ k + 1 = call.requests.length ∨
        (chanBufSize goVPPChanBufSize : ℕ) ∣ k + 1 := by
      rw [← length_take_batches hk hsize, hexchanged.drained_iff hlog]
      exact eq_comm
    constructor
    · intro h k' hk' hfails' hbefore
      -- There is only one first failure.
      obtain rfl : k' = k := by
        rcases Nat.lt_trichotomy k' k with hlt | heq | hgt
        · exact absurd (hfails.before k' hlt) hfails'
        · exact heq
        · have hnone := hbefore k hgt
          rw [hfails.fails] at hnone
          cases hnone
      have hlog' := h.drained
      rw [hupdate] at hlog'
      exact hdrained.mp hlog'
    · intro h
      have hlast := h k hk (by rw [hfails.fails]; simp) hfails.before
      have hlength := (length_take_batches hk hsize).mpr hlast
      refine ⟨?_, ⟨_, List.take_prefix ((k / chanBufSize goVPPChanBufSize + 1) *
        chanBufSize goVPPChanBufSize) _, ?_⟩, ?_, ?_⟩
      · rw [hupdate]
        exact hdrained.mpr hlast
      · rw [hupdate, hlength, ← hn]
        exact ⟨hexchanged.requests_eq, hexchanged.replies_eq⟩
      · rw [hupdate]
        exact hexchanged.fits
      · rw [hupdate]
        refine iff_of_false (by simp) fun hall => ?_
        have hnone := hall.2 k hk
        rw [hfails.fails] at hnone
        cases hnone

end Call

/-! ## Runs -/

theorem logAfter_append (answers : ℕ → VppReply) (goVPPChanBufSize : ℕ)
    (before : List RuleChanges) (call : RuleChanges) :
    logAfter answers goVPPChanBufSize (before ++ [call]) =
      (call.update answers goVPPChanBufSize
        (logAfter answers goVPPChanBufSize before)).1 := by
  simp [logAfter]

/-- All calls of a run behave just if in each of them the first failure, if
there is one, comes at the end of a batch. -/
theorem updateRules_run_iff (answers : ℕ → VppReply) (goVPPChanBufSize : ℕ)
    (calls : List RuleChanges) :
    (∀ before call, before ++ [call] <+: calls → Behaves answers goVPPChanBufSize
        (logAfter answers goVPPChanBufSize before) call) ↔
    ∀ before call, before ++ [call] <+: calls →
      FailureEndsBatch answers goVPPChanBufSize
        (requests (logAfter answers goVPPChanBufSize before)).length call := by
  let lastBehaves (run : List RuleChanges) : Prop :=
    ∀ before call, run = before ++ [call] → Behaves answers goVPPChanBufSize
        (logAfter answers goVPPChanBufSize before) call
  have hlast : (∀ before call, before ++ [call] <+: calls →
      Behaves answers goVPPChanBufSize
        (logAfter answers goVPPChanBufSize before) call) ↔
      ∀ run, run <+: calls → lastBehaves run := by
    constructor
    · intro h run hrun before call heq
      exact h before call (heq ▸ hrun)
    · intro h before call hpre
      exact h _ hpre before call rfl
  have hbehaves : ∀ {before : List RuleChanges} {call : RuleChanges},
      Behaves answers goVPPChanBufSize
        (logAfter answers goVPPChanBufSize before) call →
      lastBehaves (before ++ [call]) := by
    intro before call h pre call' heq
    obtain ⟨rfl, hcall⟩ := List.append_inj' heq rfl
    obtain rfl := List.singleton_inj.mp hcall
    exact h
  rw [hlast]
  -- The channel is drained after every call that behaves.
  refine RunCondition.forall_prefix_iff (Q := fun run => lastBehaves run ∧
      Drained (logAfter answers goVPPChanBufSize run)) ⟨?_, rfl⟩
    (fun _ h => h.1) ?_ ?_
  · intro before call heq
    simp at heq
  · intro before call _ h hends
    have hcall := (behaves_iff h.2).mpr hends
    refine ⟨hbehaves hcall, ?_⟩
    rw [logAfter_append]
    exact hcall.drained
  · intro before call _ h hcall
    exact (behaves_iff h.2).mp (hcall before call rfl)

/-! ## Replies that are left behind -/

/-- VPP has none of the two rules that a first call removes, and adds the rule
of a second call. -/
def refusedTwice : ℕ → VppReply
  | 0 | 1 => .decoded (-1)
  | _ => .decoded 0

def sampleRule : SessionRule := egressRule isolatedIP isolatedRule

def refusedLog : VppLog :=
  logAfter refusedTwice 0 [⟨[], [sampleRule, sampleRule]⟩]

/-- The second call reads a reply to the first one, and fails although VPP has
done what it asks for. -/
theorem updateRules_reads_stale_reply :
    ¬ Drained refusedLog ∧ (refusedTwice 2).failure = none ∧
      (RuleChanges.update refusedTwice 0 refusedLog
        ⟨[sampleRule], []⟩).2 = some errMsg := by
  decide +kernel

end ContivVPP.SessionCache
