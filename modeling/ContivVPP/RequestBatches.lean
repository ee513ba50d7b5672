import Mathlib.Data.PNat.Notation
import Mathlib.Tactic

/-!
# Requests in batches

Requests are sent over a channel that answers each of them with one reply, in
order.  They are sent in batches, and after each batch its replies are read,
until one of them is a failure.  The log of the channel shows which requests
were sent and which replies were read, so the reply that is read next is the
answer to the first request without one in the log.
-/

namespace ContivVPP.RequestBatches

variable {α ρ ε : Type*}

/-! ## The log of a channel -/

inductive Event (α ρ : Type*) where
  | request (x : α)
  | reply (r : ρ)

abbrev Log (α ρ : Type*) := List (Event α ρ)

def requests : Log α ρ → List α
  | [] => []
  | .request x :: log => x :: requests log
  | .reply _ :: log => requests log

def replies : Log α ρ → List ρ
  | [] => []
  | .request _ :: log => replies log
  | .reply r :: log => r :: replies log

@[simp] theorem requests_append (log log' : Log α ρ) :
    requests (log ++ log') = requests log ++ requests log' := by
  induction log with
  | nil => rfl
  | cons event log ih => cases event <;> simp [requests, ih]

@[simp] theorem replies_append (log log' : Log α ρ) :
    replies (log ++ log') = replies log ++ replies log' := by
  induction log with
  | nil => rfl
  | cons event log ih => cases event <;> simp [replies, ih]

@[simp] theorem requests_map_request (xs : List α) :
    requests (xs.map .request : Log α ρ) = xs := by
  induction xs with
  | nil => rfl
  | cons x xs ih => simp [requests, ih]

@[simp] theorem replies_map_request (xs : List α) :
    replies (xs.map .request : Log α ρ) = [] := by
  induction xs with
  | nil => rfl
  | cons x xs ih => simp [replies, ih]

@[simp] theorem requests_map_reply (rs : List ρ) :
    requests (rs.map .reply : Log α ρ) = [] := by
  induction rs with
  | nil => rfl
  | cons r rs ih => simp [requests, ih]

@[simp] theorem replies_map_reply (rs : List ρ) :
    replies (rs.map .reply : Log α ρ) = rs := by
  induction rs with
  | nil => rfl
  | cons r rs ih => simp [replies, ih]

def Drained (log : Log α ρ) : Prop :=
  (replies log).length = (requests log).length

instance (log : Log α ρ) : Decidable (Drained log) :=
  inferInstanceAs (Decidable (_ = _))

def Fits (size : ℕ) (log : Log α ρ) : Prop :=
  (requests log).length ≤ (replies log).length + size

def FitsBetween (size : ℕ) (log log' : Log α ρ) : Prop :=
  ∀ p, log <+: p → p <+: log' → Fits size p

variable {size : ℕ} {log log' : Log α ρ}

theorem fitsBetween_of_le
    (h : (requests log').length ≤ (replies log).length + size) :
    FitsBetween size log log' := by
  intro p hp hp'
  obtain ⟨before, rfl⟩ := hp
  obtain ⟨after, rfl⟩ := hp'
  simp only [requests_append, List.length_append] at h
  simp only [Fits, requests_append, replies_append, List.length_append]
  omega

variable {mid : Log α ρ}

theorem FitsBetween.trans (hmid : mid <+: log') (h : FitsBetween size log mid)
    (h' : FitsBetween size mid log') :
    FitsBetween size log log' := by
  intro p hp hp'
  rcases List.prefix_or_prefix_of_prefix hp' hmid with hle | hge
  · exact h p hp hle
  · exact h' p hge hp'

/-! ## The loops -/

section Loops

variable (answers : ℕ → ρ) (failure : ρ → Option ε)

def receive : ℕ → Log α ρ → Log α ρ × Option ε
  | 0, log => (log, none)
  | j + 1, log =>
      let reply := answers (replies log).length
      match failure reply with
      | some err => (log ++ [.reply reply], some err)
      | none => receive j (log ++ [.reply reply])

/-- Send the requests in batches of a size and read the replies to each batch;
a failure ends the loop. -/
def exchange (size : ℕ+) (xs : List α) (log : Log α ρ) : Log α ρ × Option ε :=
  if xs = [] then (log, none)
  else
    let batch := xs.take size
    let received := receive answers failure batch.length
      (log ++ batch.map .request)
    match received.2 with
    | some err => (received.1, some err)
    | none => exchange size (xs.drop size) received.1
termination_by xs.length
decreasing_by
  have hpos := List.length_pos_iff.mpr ‹¬ xs = []›
  have hsize := size.pos
  simp only [List.length_drop]
  omega

structure FirstFailure (n k : ℕ) (err : ε) : Prop where
  fails : failure (answers (n + k)) = some err
  before : ∀ i < k, failure (answers (n + i)) = none

end Loops

section Spec

variable {answers : ℕ → ρ} {failure : ρ → Option ε}

theorem receive_cases (j : ℕ) (log : Log α ρ) {n : ℕ}
    (hn : (replies log).length = n) :
    (∀ i < j, failure (answers (n + i)) = none) ∧ receive answers failure j log =
          (log ++ ((List.range' n j).map answers).map .reply, none) ∨
      ∃ k < j, ∃ err, FirstFailure answers failure n k err ∧
        receive answers failure j log =
          (log ++ ((List.range' n (k + 1)).map answers).map .reply,
            some err) := by
  induction j generalizing log n with
  | zero => exact Or.inl ⟨by simp, by simp [receive]⟩
  | succ j ih =>
      rw [receive, hn]
      cases hfirst : failure (answers n) with
      | some err =>
          refine Or.inr ⟨0, by omega, err, ⟨by simpa using hfirst, by simp⟩, ?_⟩
          simp
      | none =>
          have hnext : (replies (log ++ [.reply (answers n)])).length =
              n + 1 := by
            simp [replies, hn]
          have hshift : ∀ i, answers (n + 1 + i) = answers (n + (i + 1)) := by
            intro i
            rw [Nat.add_assoc, Nat.add_comm 1 i]
          rcases ih (log ++ [.reply (answers n)]) hnext with
            ⟨hall, heq⟩ | ⟨k, hk, err, hfailure, heq⟩
          · refine Or.inl ⟨fun i hi => ?_, ?_⟩
            · cases i with
              | zero => exact hfirst
              | succ i => exact hshift i ▸ hall i (by omega)
            · simp only [heq, List.range'_succ, List.map_cons]
              simp
          · refine Or.inr ⟨k + 1, by omega, err,
              ⟨hshift k ▸ hfailure.fails, fun i hi => ?_⟩, ?_⟩
            · cases i with
              | zero => exact hfirst
              | succ i => exact hshift i ▸ hfailure.before i (by omega)
            · simp only [heq, List.range'_succ, List.map_cons]
              simp

def afterBatch (answers : ℕ → ρ) (log : Log α ρ) (batch : List α) (m : ℕ) :
    Log α ρ :=
  log ++ batch.map .request ++
    ((List.range' (replies log).length m).map answers).map .reply

theorem requests_afterBatch (log : Log α ρ) (batch : List α) (m : ℕ) :
    requests (afterBatch answers log batch m) = requests log ++ batch := by
  simp only [afterBatch, requests_append, requests_map_request,
    requests_map_reply, List.append_nil]

theorem replies_afterBatch (log : Log α ρ) (batch : List α) (m : ℕ) :
    replies (afterBatch answers log batch m) = replies log ++
      (List.range' (replies log).length m).map answers := by
  simp only [afterBatch, replies_append, replies_map_request,
    replies_map_reply, List.append_nil]

theorem fitsBetween_afterBatch (hlog : Drained log) {batch : List α}
    (hbatch : batch.length ≤ size) (m : ℕ) :
    FitsBetween size log (afterBatch answers log batch m) := by
  apply fitsBetween_of_le
  rw [requests_afterBatch, List.length_append, hlog]
  omega

/-- What the requests of a loop lead to: which ones are sent, which replies are
read, and how much of the buffer is used. -/
structure Exchanged (answers : ℕ → ρ) (size : ℕ) (sent : List α) (m : ℕ)
    (log log' : Log α ρ) : Prop where
  extends_log : log <+: log'
  requests_eq : requests log' = requests log ++ sent
  replies_eq : replies log' = replies log ++
    (List.range' (replies log).length m).map answers
  fits : FitsBetween size log log'

theorem Exchanged.length_replies {sent : List α} {m : ℕ}
    (h : Exchanged answers size sent m log log') :
    (replies log').length = (replies log).length + m := by
  rw [h.replies_eq]
  simp

theorem Exchanged.drained_iff {sent : List α} {m : ℕ}
    (h : Exchanged answers size sent m log log') (hlog : Drained log) :
    Drained log' ↔ m = sent.length := by
  rw [Drained, h.length_replies, h.requests_eq, List.length_append, hlog]
  omega

theorem exchanged_afterBatch (hlog : Drained log) {batch : List α}
    (hbatch : batch.length ≤ size) (m : ℕ) :
    Exchanged answers size batch m log (afterBatch answers log batch m) where
  extends_log := by
    rw [afterBatch, List.append_assoc]
    exact List.prefix_append _ _
  requests_eq := requests_afterBatch log batch m
  replies_eq := replies_afterBatch log batch m
  fits := fitsBetween_afterBatch hlog hbatch m

theorem Exchanged.trans {sent sent' : List α} {m m' : ℕ}
    (h : Exchanged answers size sent m log mid)
    (h' : Exchanged answers size sent' m' mid log') :
    Exchanged answers size (sent ++ sent') (m + m') log log' where
  extends_log := h.extends_log.trans h'.extends_log
  requests_eq := by
    rw [h'.requests_eq, h.requests_eq, List.append_assoc]
  replies_eq := by
    rw [h'.replies_eq, h.replies_eq, List.append_assoc, ← List.map_append]
    simp [List.range'_append_1]
  fits := h.fits.trans h'.extends_log h'.fits

variable (answers failure) in
theorem receive_batch (batch : List α) (log : Log α ρ) : (∀ i < batch.length,
        failure (answers ((replies log).length + i)) = none) ∧
        receive answers failure batch.length (log ++ batch.map .request) =
          (afterBatch answers log batch batch.length, none) ∨
      ∃ k < batch.length, ∃ err,
        FirstFailure answers failure (replies log).length k err ∧
        receive answers failure batch.length (log ++ batch.map .request) =
          (afterBatch answers log batch (k + 1), some err) :=
  receive_cases batch.length (log ++ batch.map .request) (by simp)

theorem exchange_of_received {size : ℕ+} {xs : List α} (hne : xs ≠ [])
    (h : receive answers failure (xs.take size).length
      (log ++ (xs.take size).map .request) = (mid, none)) :
    exchange answers failure size xs log =
      exchange answers failure size (xs.drop size) mid := by
  rw [exchange, if_neg hne]
  simp only [h]

theorem exchange_of_failed {size : ℕ+} {xs : List α} {err : ε} (hne : xs ≠ [])
    (h : receive answers failure (xs.take size).length
      (log ++ (xs.take size).map .request) = (mid, some err)) :
    exchange answers failure size xs log = (mid, some err) := by
  rw [exchange, if_neg hne]
  simp only [h]

theorem FirstFailure.shift {n k m : ℕ} {err : ε}
    (h : FirstFailure answers failure (n + m) k err)
    (hbefore : ∀ i < m, failure (answers (n + i)) = none) :
    FirstFailure answers failure n (m + k) err where
  fails := by
    rw [← Nat.add_assoc]
    exact h.fails
  before i hi := by
    rcases Nat.lt_or_ge i m with hlt | hge
    · exact hbefore i hlt
    · have hrest := h.before (i - m) (by omega)
      rwa [Nat.add_assoc, Nat.add_sub_cancel' hge] at hrest

variable (answers failure) in
/-- A loop that starts without open requests sends all of them, or the batches
up to the one with the first failure, of which it reads no further reply. -/
theorem exchange_cases (size : ℕ+) (xs : List α) (log : Log α ρ)
    (hlog : Drained log) :
    (∀ i < xs.length, failure (answers ((replies log).length + i)) = none) ∧
        (∃ log', exchange answers failure size xs log = (log', none) ∧
          Exchanged answers size xs xs.length log log') ∨
      ∃ k < xs.length, ∃ err,
        FirstFailure answers failure (replies log).length k err ∧
        ∃ log', exchange answers failure size xs log = (log', some err) ∧
          Exchanged answers size (xs.take ((k / size + 1) * size)) (k + 1)
            log log' := by
  induction hlength : xs.length using Nat.strong_induction_on
    generalizing xs log with
  | _ length ih =>
  subst hlength
  have hsize := size.pos
  by_cases hne : xs = []
  · subst hne
    rw [exchange, if_pos rfl]
    refine Or.inl ⟨by simp, log, rfl, List.prefix_refl log, by simp, by simp,
      fitsBetween_of_le ?_⟩
    rw [hlog]
    omega
  · have hbatch : (xs.take size).length ≤ size := by simp
    rcases receive_batch answers failure (xs.take size) log with
      ⟨hall, hreceive⟩ | ⟨k, hk, err, hfails, hreceive⟩
    · have hfirst : Exchanged answers size (xs.take size)
          (xs.take size).length log (afterBatch answers log (xs.take size)
            (xs.take size).length) :=
        exchanged_afterBatch hlog hbatch _
      have hreplies := hfirst.length_replies
      have hshorter : (xs.drop size).length < xs.length := by
        have hpos := List.length_pos_iff.mpr hne
        rw [List.length_drop]
        omega
      rw [exchange_of_received hne hreceive]
      rcases ih _ hshorter (xs.drop size) _ ((hfirst.drained_iff hlog).mpr rfl)
        rfl with
        ⟨hrest, log', heq, hexchanged⟩ |
        ⟨k, hk, err, hfails, log', heq, hexchanged⟩
      · refine Or.inl ⟨fun i hi => ?_, log', heq, ?_⟩
        · rcases Nat.lt_or_ge i (xs.take size).length with hlt | hge
          · exact hall i hlt
          · have hnext := hrest (i - (xs.take size).length) (by
              rw [List.length_drop]
              rw [List.length_take] at hge ⊢
              omega)
            rwa [hreplies, Nat.add_assoc, Nat.add_sub_cancel' hge] at hnext
        · have hboth := hfirst.trans hexchanged
          rwa [List.take_append_drop, ← List.length_append,
            List.take_append_drop] at hboth
      · -- A failure in a later batch: this one is full.
        have hfull : (xs.take size).length = size := by
          rw [List.length_drop] at hk
          rw [List.length_take]
          omega
        rw [hreplies] at hfails
        have hshift := hfails.shift hall
        have hboth := hfirst.trans hexchanged
        rw [hfull] at hshift hboth
        refine Or.inr ⟨size + k, ?_, err, hshift, log', heq, ?_⟩
        · rw [List.length_drop] at hk
          omega
        · have hsent : ((size + k) / size + 1) * (size : ℕ) =
              size + (k / size + 1) * size := by
            rw [Nat.add_div_left k hsize]
            ring
          rw [hsent, List.take_add, Nat.add_assoc]
          exact hboth
    · have hlt : k < size := by
        rw [List.length_take] at hk
        omega
      refine Or.inr ⟨k, ?_, err, hfails, _, exchange_of_failed hne hreceive, ?_⟩
      · rw [List.length_take] at hk
        omega
      · rw [Nat.div_eq_of_lt hlt, Nat.zero_add, Nat.one_mul]
        exact exchanged_afterBatch hlog hbatch (k + 1)

theorem length_take_batches {xs : List α} {k : ℕ} (hk : k < xs.length)
    (hsize : 0 < size) :
    (xs.take ((k / size + 1) * size)).length = k + 1 ↔
      k + 1 = xs.length ∨ size ∣ k + 1 := by
  have hdiv := Nat.div_add_mod k size
  have hmod := Nat.mod_lt k hsize
  have hmul : (k / size + 1) * size = size * (k / size) + size := by ring
  rw [List.length_take, hmul]
  constructor
  · intro h
    rcases Nat.le_total (size * (k / size) + size) xs.length with hle | hge
    · right
      rw [Nat.min_eq_left hle] at h
      exact ⟨k / size + 1, by rw [← h]; ring⟩
    · left
      rw [Nat.min_eq_right hge] at h
      exact h.symm
  · intro h
    rcases h with hlast | hdvd
    · omega
    · obtain ⟨q, hq⟩ := hdvd
      have hq' : q = k / size + 1 := by
        rw [← Nat.succ_div_of_dvd ⟨q, hq⟩, hq, Nat.mul_div_cancel_left q hsize]
      rw [hq', Nat.mul_add, Nat.mul_one] at hq
      omega

end Spec

end ContivVPP.RequestBatches
