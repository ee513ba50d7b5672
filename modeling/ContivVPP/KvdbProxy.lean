import Mathlib.Data.Finset.Basic
import ContivVPP.GoMap
import ContivVPP.RunCondition

/-!
# The proxy of the key-value data store

The CNI server persists what it has configured itself.  The proxy keeps the
change events of these writes from the watcher: before a write its key and
operation are entered into a list, and the first event that matches an entry is
dropped together with the entry.  Writes that fail and deletions of keys that
are not there leave their entries behind, and events of other writers can match
an entry as well.
-/

namespace ContivVPP.Kvdbproxy

open GoMap

/-! ## Writes and events -/

inductive PutDel where
  | put
  | delete
  deriving DecidableEq

structure ChangeEvent where
  key : String
  changeType : PutDel
  own : Bool
  deriving DecidableEq

/-- The calls of the proxy by the CNI server, changes by other writers, and the
delivery of the next event to the filter. -/
inductive Action where
  | addIgnoreEntry (key : String) (op : PutDel)
  | write (key : String) (op : PutDel) (fails : Bool)
  | change (key : String) (op : PutDel)
  | deliver
  deriving DecidableEq

/-- `persistChanges` with the keys in the order of its loops.  The flags tell
which writes fail; the first failure ends the call. -/
def persistWrites : List (String × PutDel × Bool) → List Action
  | [] => []
  | (key, op, fails) :: writes =>
      .addIgnoreEntry key op :: .write key op fails ::
        if fails then [] else persistWrites writes

def persistChanges (removedKeys putKeys : List (String × Bool)) : List Action :=
  persistWrites ((removedKeys.map fun k => (k.1, .delete, k.2)) ++
    putKeys.map fun k => (k.1, .put, k.2))

inductive Observation where
  | announced (key : String) (op : PutDel)
  | delivered (event : ChangeEvent)
  deriving DecidableEq

structure State where
  keys : Finset String
  ignoreList : AList fun _ : String => PutDel
  undelivered : List ChangeEvent
  forwarded : List ChangeEvent
  history : List Observation

def State.init (keys : Finset String) : State := ⟨keys, ∅, [], [], []⟩

def State.store (s : State) (key : String) (own : Bool) : PutDel → State
  | .put => { s with
      keys := insert key s.keys
      undelivered := s.undelivered ++ [⟨key, .put, own⟩] }
  | .delete =>
      if key ∈ s.keys then { s with
        keys := s.keys.erase key
        undelivered := s.undelivered ++ [⟨key, .delete, own⟩] }
      else s

def State.filter (s : State) (m : ChangeEvent) : State :=
  if s.ignoreList.lookup m.key = some m.changeType then
    { s with ignoreList := s.ignoreList.erase m.key }
  else { s with forwarded := s.forwarded ++ [m] }

def State.step (s : State) : Action → State
  | .addIgnoreEntry key op => { s with
      ignoreList := s.ignoreList.insert key op
      history := s.history ++ [.announced key op] }
  | .write key op fails => if fails then s else s.store key true op
  | .change key op => s.store key false op
  | .deliver =>
      match s.undelivered with
      | [] => s
      | m :: undelivered =>
          { s.filter m with
            undelivered := undelivered
            history := s.history ++ [.delivered m] }

def State.run (keys : Finset String) (run : List Action) : State :=
  run.foldl State.step (.init keys)

def deliveredEvents : List Observation → List ChangeEvent
  | [] => []
  | .announced _ _ :: history => deliveredEvents history
  | .delivered m :: history => m :: deliveredEvents history

/-- The events of other writers are forwarded, all of them and in order. -/
def State.Faithful (s : State) : Prop :=
  s.forwarded = (deliveredEvents s.history).filter fun m => !m.own

instance (s : State) : Decidable s.Faithful :=
  inferInstanceAs (Decidable (_ = _))

/-! ## Entries that are in force -/

/-- The last write to the key that was announced has the operation, and no
event of it has been delivered since. -/
def Armed (history : List Observation) (key : String) (op : PutDel) : Prop :=
  ∃ before after, history = before ++ .announced key op :: after ∧
    (∀ op', .announced key op' ∉ after) ∧
    .delivered ⟨key, op, true⟩ ∉ after

/-- The event that is delivered next is an own one just if its write is the last
one to the key that was announced, and none of its events was delivered
since. -/
def State.Recognised (s : State) : Action → Prop
  | .deliver => ∀ m ∈ s.undelivered.head?,
      m.own = true ↔ Armed s.history m.key m.changeType
  | _ => True

section Armed

variable {history : List Observation} {key key' : String} {op op' : PutDel}

theorem armed_append {observation : Observation} :
    Armed (history ++ [observation]) key op ↔ observation = .announced key op ∨
        Armed history key op ∧ (∀ op', observation ≠ .announced key op') ∧
          observation ≠ .delivered ⟨key, op, true⟩ := by
  constructor
  · intro h
    obtain ⟨before, after, heq, hannounced, hdelivered⟩ := h
    rcases List.eq_nil_or_concat after with rfl | ⟨after, last, rfl⟩
    · left
      obtain ⟨_, hlast⟩ := List.append_inj' heq rfl
      exact List.singleton_inj.mp hlast
    · right
      rw [List.concat_eq_append] at heq hannounced hdelivered
      rw [← List.cons_append, ← List.append_assoc] at heq
      obtain ⟨rfl, hlast⟩ := List.append_inj' heq rfl
      obtain rfl := List.singleton_inj.mp hlast
      simp only [List.mem_append, List.mem_singleton, not_or]
        at hannounced hdelivered
      exact ⟨⟨before, after, rfl, fun op' => (hannounced op').1,
        hdelivered.1⟩, fun op' heq => (hannounced op').2 heq.symm,
        fun heq => hdelivered.2 heq.symm⟩
  · intro h
    rcases h with rfl | ⟨⟨before, after, rfl, hannounced, hdelivered⟩,
      hlast, hlast'⟩
    · exact ⟨history, [], rfl, by simp, by simp⟩
    · refine ⟨before, after ++ [observation], by simp, ?_, ?_⟩
      · intro op' hmem
        rcases List.mem_append.mp hmem with hmem | hmem
        · exact hannounced op' hmem
        · exact hlast op' (List.mem_singleton.mp hmem).symm
      · intro hmem
        rcases List.mem_append.mp hmem with hmem | hmem
        · exact hdelivered hmem
        · exact hlast' (List.mem_singleton.mp hmem).symm

theorem armed_announced : Armed (history ++ [.announced key op]) key' op' ↔
      if key' = key then op' = op else Armed history key' op' := by
  rw [armed_append]
  split_ifs with hkey
  · subst hkey
    simp [eq_comm]
  · simp [Ne.symm hkey]

theorem armed_delivered {m : ChangeEvent} :
    Armed (history ++ [.delivered m]) key op ↔
      Armed history key op ∧ m ≠ ⟨key, op, true⟩ := by
  rw [armed_append]
  simp

end Armed

/-! ## One step -/

theorem deliveredEvents_append (history history' : List Observation) :
    deliveredEvents (history ++ history') =
      deliveredEvents history ++ deliveredEvents history' := by
  induction history with
  | nil => rfl
  | cons observation history ih =>
      cases observation <;> simp [deliveredEvents, ih]

structure State.Exact (s : State) : Prop where
  faithful : s.Faithful
  entries : ∀ key op, s.ignoreList.lookup key = some op ↔ Armed s.history key op

section Step

variable {s : State}

theorem store_fields (s : State) (key : String) (own : Bool) (op : PutDel) :
    (s.store key own op).ignoreList = s.ignoreList ∧
      (s.store key own op).forwarded = s.forwarded ∧
      (s.store key own op).history = s.history := by
  cases op with
  | put => exact ⟨rfl, rfl, rfl⟩
  | delete =>
      unfold State.store
      split_ifs <;> exact ⟨rfl, rfl, rfl⟩

theorem State.Exact.store (h : s.Exact) (key : String) (own : Bool)
    (op : PutDel) : (s.store key own op).Exact := by
  obtain ⟨hlist, hforwarded, hhistory⟩ := store_fields s key own op
  constructor
  · rw [State.Faithful, hforwarded, hhistory]
    exact h.faithful
  · rw [hlist, hhistory]
    exact h.entries

theorem State.Exact.addIgnoreEntry (h : s.Exact) (key : String)
    (op : PutDel) : (s.step (.addIgnoreEntry key op)).Exact := by
  constructor
  · change s.forwarded = (deliveredEvents
      (s.history ++ [.announced key op])).filter _
    rw [deliveredEvents_append, deliveredEvents, deliveredEvents, List.append_nil]
    exact h.faithful
  · intro key' op'
    change (s.ignoreList.insert key op).lookup key' = some op' ↔
      Armed (s.history ++ [.announced key op]) key' op'
    rw [armed_announced]
    split_ifs with hkey
    · subst hkey
      rw [AList.lookup_insert, Option.some.injEq, eq_comm]
    · rw [AList.lookup_insert_ne hkey, h.entries]

theorem State.Exact.filter_iff (h : s.Exact) (m : ChangeEvent) :
    (s.filter m).forwarded = s.forwarded ++ [m].filter (fun m => !m.own) ↔
      (m.own = true ↔ Armed s.history m.key m.changeType) := by
  rw [← h.entries, State.filter]
  cases hown : m.own <;> split_ifs with hentry <;> simp [hown, hentry]

theorem faithful_deliver (h : s.Faithful) {m : ChangeEvent}
    {undelivered : List ChangeEvent}
    (hnext : s.undelivered = m :: undelivered) :
    (s.step .deliver).Faithful ↔ (s.filter m).forwarded =
        s.forwarded ++ [m].filter (fun m => !m.own) := by
  have hstep : s.step .deliver = { s.filter m with
      undelivered := undelivered
      history := s.history ++ [.delivered m] } := by
    simp only [State.step, hnext]
  rw [hstep, State.Faithful, deliveredEvents_append, List.filter_append, ← h]
  rfl

theorem State.Exact.entries_filter (h : s.Exact) {m : ChangeEvent}
    (hown : m.own = true ↔ Armed s.history m.key m.changeType)
    (key : String) (op : PutDel) :
    (s.filter m).ignoreList.lookup key = some op ↔
      Armed (s.history ++ [.delivered m]) key op := by
  rw [armed_delivered, ← h.entries, State.filter]
  rw [← h.entries] at hown
  split_ifs with hentry
  · change (s.ignoreList.erase m.key).lookup key = some op ↔ _
    rcases eq_or_ne key m.key with rfl | hkey
    · rw [AList.lookup_erase]
      constructor
      · intro hnone
        cases hnone
      · intro hlookup
        obtain rfl := Option.some.inj (hentry.symm.trans hlookup.1)
        have howned := hown.mpr hentry
        exact absurd (by rw [← howned]) hlookup.2
    · rw [AList.lookup_erase_ne hkey]
      constructor
      · intro hlookup
        refine ⟨hlookup, ?_⟩
        intro heq
        exact hkey (congrArg ChangeEvent.key heq).symm
      · exact And.left
  · constructor
    · intro hlookup
      refine ⟨hlookup, ?_⟩
      intro heq
      rw [heq] at hentry
      exact hentry hlookup
    · exact And.left

theorem State.Exact.step (h : s.Exact) {a : Action}
    (hrecognised : s.Recognised a) : (s.step a).Exact := by
  cases a with
  | addIgnoreEntry key op => exact h.addIgnoreEntry key op
  | write key op fails =>
      cases fails with
      | true => exact h
      | false => exact h.store key true op
  | change key op => exact h.store key false op
  | deliver =>
      rcases hnext : s.undelivered with _ | ⟨m, undelivered⟩
      · simpa only [State.step, hnext] using h
      · have hown := hrecognised m (by rw [hnext]; rfl)
        constructor
        · rw [faithful_deliver h.faithful hnext, h.filter_iff]
          exact hown
        · simp only [State.step, hnext]
          exact h.entries_filter hown

theorem State.Exact.recognised (h : s.Exact) {a : Action}
    (hfaithful : (s.step a).Faithful) : s.Recognised a := by
  cases a with
  | addIgnoreEntry key op => trivial
  | write key op fails => trivial
  | change key op => trivial
  | deliver =>
      intro m hm
      rcases hnext : s.undelivered with _ | ⟨next, undelivered⟩
      · rw [hnext] at hm
        cases hm
      · rw [hnext] at hm
        obtain rfl := Option.some.inj hm
        rw [← h.filter_iff, ← faithful_deliver h.faithful hnext]
        exact hfaithful

end Step

/-! ## Whole runs -/

theorem State.exact_init (keys : Finset String) : (State.init keys).Exact := by
  constructor
  · rfl
  · intro key op
    simp [State.init, Armed]

theorem State.run_append (keys : Finset String) (before : List Action)
    (a : Action) :
    State.run keys (before ++ [a]) = (State.run keys before).step a := by
  simp only [State.run, List.foldl_append, List.foldl_cons, List.foldl_nil]

/-- Of what the store delivers, the watcher gets just the events of the other
writers, all along a run of calls, failures, other writes and deliveries, just
if each event is an own one when its write is the last one announced for the
key, and only then. -/
theorem forwarded_run_iff (keys : Finset String) (run : List Action) :
    (∀ before, before <+: run → (State.run keys before).Faithful) ↔
      ∀ before a, before ++ [a] <+: run →
        (State.run keys before).Recognised a := by
  apply RunCondition.forall_prefix_iff
    (Q := fun before => (State.run keys before).Exact)
  · exact State.exact_init keys
  · intro before h
    exact h.faithful
  · intro before a _ h hrecognised
    rw [State.run_append]
    exact h.step hrecognised
  · intro before a _ h hfaithful
    rw [State.run_append] at hfaithful
    exact h.recognised hfaithful

/-- The CNI server deletes a key that is not there, which makes no event.
Another writer then adds the key and deletes it again.  The watcher does not
learn of the second change, though no own event is ever on its way. -/
theorem forwarded_absentKey :
    let calls := persistChanges [("key", false)] []
    let run := calls ++
      [.change "key" .put, .change "key" .delete, .deliver, .deliver]
    (∀ before ∈ run.inits, ∀ m ∈ (State.run ∅ before).undelivered,
      m.own = false) ∧
    deliveredEvents (State.run ∅ run).history =
      [⟨"key", .put, false⟩, ⟨"key", .delete, false⟩] ∧
    (State.run ∅ run).forwarded = [⟨"key", .put, false⟩] ∧
    ¬ (State.run ∅ run).Faithful := by
  intro calls run
  decide +kernel

end ContivVPP.Kvdbproxy
