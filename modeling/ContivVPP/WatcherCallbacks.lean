import ContivVPP.PolicyCacheContent

/-!
# Callbacks of the watchers

After each update of the cache the watchers are called in the order of their
subscription.  The first error is returned; it leaves the other watchers
without a callback, but the cache is up to date by then.  A put that replaces a
value does not end with the callback of the update: the value is announced once
more, as a new one.
-/

namespace ContivVPP.PolicyCache

open K8s GoMap

/-! ## Watchers -/

/-- The watchers by number, and the error with which each of them answers.  A
watcher may look into the cache. -/
structure Watchers where
  count : ℕ
  error : ℕ → Stage → Option String

/-- The callbacks that were made, the error that is returned and the content
that the cache is left with. -/
structure Outcome where
  callbacks : List (ℕ × Stage)
  error : Option String
  cache : Cache

def notify (error : ℕ → Stage → Option String) (stage : Stage) :
    List ℕ → List (ℕ × Stage) × Option String
  | [] => ([], none)
  | watcher :: watchers =>
      match error watcher stage with
      | some text => ([(watcher, stage)], some text)
      | none =>
          let rest := notify error stage watchers
          ((watcher, stage) :: rest.1, rest.2)

def deliver (ws : Watchers) : Cache → List Stage → Outcome
  | c, [] => ⟨[], none, c⟩
  | _, stage :: stages =>
      let calls := notify ws.error stage (List.range ws.count)
      match calls.2 with
      | some text => ⟨calls.1, some text, stage.cache⟩
      | none =>
          let rest := deliver ws stage.cache stages
          ⟨calls.1 ++ rest.callbacks, rest.error, rest.cache⟩

def Cache.update (c : Cache) (ws : Watchers) (dataChngEv : ChangeEvent) :
    Except Failure Outcome := do
  let stages ← changePropagateEvent c dataChngEv
  return deliver ws c stages

section Callbacks

variable {error : ℕ → Stage → Option String} {stage : Stage}
  {call : ℕ × Stage} {text : String}

theorem notify_error {watchers : List ℕ}
    (hcall : call ∈ (notify error stage watchers).1)
    (htext : error call.1 call.2 = some text) :
    (notify error stage watchers).2 = some text := by
  induction watchers with
  | nil => cases hcall
  | cons watcher watchers ih =>
      rw [notify] at hcall ⊢
      cases hfirst : error watcher stage with
      | some first =>
          simp only [hfirst, List.mem_singleton] at hcall ⊢
          rw [hcall, hfirst] at htext
          exact htext
      | none =>
          simp only [hfirst, List.mem_cons] at hcall ⊢
          rcases hcall with heq | hrest
          · rw [heq, hfirst] at htext
            cases htext
          · exact ih hrest

theorem notify_of_none {watchers : List ℕ}
    (h : ∀ watcher ∈ watchers, error watcher stage = none) :
    notify error stage watchers =
      (watchers.map fun watcher => (watcher, stage), none) := by
  induction watchers with
  | nil => rfl
  | cons watcher watchers ih =>
      have hrest := ih fun i hi => h i (List.mem_cons_of_mem watcher hi)
      rw [notify, h watcher List.mem_cons_self, hrest]
      rfl

variable {ws : Watchers} {c : Cache} {stages : List Stage}

theorem deliver_error (hcall : call ∈ (deliver ws c stages).callbacks)
    (htext : ws.error call.1 call.2 = some text) :
    (deliver ws c stages).error = some text := by
  induction stages generalizing c with
  | nil => cases hcall
  | cons stage stages ih =>
      rw [deliver] at hcall ⊢
      cases hcalls : (notify ws.error stage (List.range ws.count)).2 with
      | some first =>
          simp only [hcalls] at hcall ⊢
          rw [← hcalls]
          exact notify_error hcall htext
      | none =>
          simp only [hcalls, List.mem_append] at hcall ⊢
          rcases hcall with hfirst | hrest
          · rw [notify_error hfirst htext] at hcalls
            cases hcalls
          · exact ih hrest

/-- If every callback finds the same content, it is what the cache is left
with, whoever returns an error. -/
theorem deliver_cache {content : Cache}
    (h : ∀ stage ∈ stages, stage.cache = content)
    (hc : stages = [] → c = content) :
    (deliver ws c stages).cache = content := by
  induction stages generalizing c with
  | nil => exact hc rfl
  | cons stage stages ih =>
      have hstage := h stage List.mem_cons_self
      rw [deliver]
      cases hcalls : (notify ws.error stage (List.range ws.count)).2 with
      | some first => exact hstage
      | none =>
          exact ih (fun s hs => h s (List.mem_cons_of_mem stage hs))
            fun _ => hstage

theorem deliver_of_none
    (h : ∀ watcher < ws.count, ∀ stage, ws.error watcher stage = none) :
    (deliver ws c stages).callbacks = stages.flatMap (fun stage =>
        (List.range ws.count).map fun watcher => (watcher, stage)) ∧
      (deliver ws c stages).error = none := by
  induction stages generalizing c with
  | nil => exact ⟨rfl, rfl⟩
  | cons stage stages ih =>
      have hcalls : notify ws.error stage (List.range ws.count) =
          ((List.range ws.count).map fun watcher => (watcher, stage), none) :=
        notify_of_none fun watcher hwatcher =>
          h watcher (List.mem_range.mp hwatcher) stage
      rw [deliver, hcalls, List.flatMap_cons]
      exact ⟨congrArg _ ih.1, ih.2⟩

end Callbacks

/-! ## Events of a kind -/

/-- A change of an object of the kind, under a key of the kind. -/
structure KindEvent (k : KeyKind) where
  key : String
  accepted : k.accepts key = true
  changeType : ChangeType
  value : Option k.Data
  prevValue : Option k.Data

namespace KindEvent

variable {k : KeyKind} (ev : KindEvent k) (c : Cache)

def toChangeEvent : ChangeEvent where
  key := ev.key
  changeType := ev.changeType
  value := ev.value.map k.kind.object
  prevValue := ev.prevValue.map k.kind.object

def newValue : k.Data := ev.value.getD k.kind.empty

def oldValue : k.Data := ev.prevValue.getD k.kind.empty

def cleared : Cache :=
  if ev.changeType = .delete ∨ ev.prevValue.isSome then
    k.kind.unregisterIn ev.oldValue c
  else c

def content : Cache :=
  match ev.changeType with
  | .delete => ev.cleared c
  | .put => k.kind.withMapping c
      ((k.kind.mapping (ev.cleared c)).insert (k.kind.id ev.newValue) ev.newValue)

def notification : Notification :=
  match ev.changeType with
  | .delete => k.kind.del ev.oldValue
  | .put =>
      if ev.prevValue.isSome then k.kind.update ev.oldValue ev.newValue
      else k.kind.add ev.newValue

def stages : List Stage :=
  ⟨ev.content c, ev.notification⟩ ::
    if ev.changeType = .put ∧ ev.prevValue.isSome then
      [⟨ev.content c, k.kind.add ev.newValue⟩]
    else []

end KindEvent

theorem Kind.decode_map {β : Type} (kind : Kind β) (v : Option β) :
    kind.decode (v.map kind.object) = .ok (v.getD kind.empty) := by
  cases v with
  | none => rfl
  | some v => exact Kind.decode_object v

section Stages

variable {k : KeyKind} {ev : KindEvent k} {c : Cache}

theorem registerIn_eq (v : k.Data) (c : Cache) : k.kind.registerIn v c =
      if k.registers v then
        .ok (k.kind.withMapping c ((k.kind.mapping c).insert (k.kind.id v) v))
      else .error .crash := by
  rw [Kind.registerIn, k.register_eq]
  by_cases h : k.registers v = true
  · rw [if_pos h, if_pos h]
  · rw [if_neg h, if_neg h]

theorem registerIn_cleared (hput : ev.changeType = .put)
    (h : k.registers ev.newValue = true) :
    k.kind.registerIn ev.newValue (ev.cleared c) = .ok (ev.content c) := by
  have hwith : ∀ m, k.kind.withMapping (ev.cleared c) m =
      k.kind.withMapping c m := by
    intro m
    rw [KindEvent.cleared]
    split
    · exact k.kind.withMapping_withMapping c _ m
    · rfl
  rw [registerIn_eq, if_pos h, hwith, KindEvent.content, hput]

theorem registerIn_content (hput : ev.changeType = .put)
    (h : k.registers ev.newValue = true) :
    k.kind.registerIn ev.newValue (ev.content c) = .ok (ev.content c) := by
  rw [KindEvent.content, hput, registerIn_eq, if_pos h,
    k.kind.mapping_withMapping, k.kind.withMapping_withMapping,
    AList.insert_insert]

theorem propagate_toChangeEvent : k.kind.propagate c ev.toChangeEvent =
      if ev.changeType = .delete ∨ k.registers ev.newValue = true then
        .ok (ev.stages c)
      else .error .crash := by
  have hvalue : k.kind.decode ev.toChangeEvent.value = .ok ev.newValue :=
    k.kind.decode_map ev.value
  have hprev : k.kind.decode ev.toChangeEvent.prevValue = .ok ev.oldValue :=
    k.kind.decode_map ev.prevValue
  have hsome : ev.toChangeEvent.prevValue.isSome = ev.prevValue.isSome :=
    Option.isSome_map
  have htype : ev.toChangeEvent.changeType = ev.changeType := rfl
  rw [Kind.propagate, hvalue, hprev, hsome, htype]
  simp only [bind, Except.bind]
  cases hchange : ev.changeType with
  | delete =>
      simp [KindEvent.stages, KindEvent.content, KindEvent.cleared,
        KindEvent.notification, hchange, pure, Except.pure]
  | put =>
      have hstage : ev.stages c = ⟨ev.content c, ev.notification⟩ ::
          if ev.prevValue.isSome then
            [⟨ev.content c, k.kind.add ev.newValue⟩] else [] := by
        simp [KindEvent.stages, hchange]
      have hcleared : ev.cleared c = if ev.prevValue.isSome then
          k.kind.unregisterIn ev.oldValue c else c := by
        simp [KindEvent.cleared, hchange]
      have hnotification : ev.notification = if ev.prevValue.isSome then
          k.kind.update ev.oldValue ev.newValue
          else k.kind.add ev.newValue := by
        simp [KindEvent.notification, hchange]
      by_cases hregisters : k.registers ev.newValue = true
      · have hin := @registerIn_cleared k ev c hchange hregisters
        have hagain := @registerIn_content k ev c hchange hregisters
        by_cases hold : ev.prevValue.isSome = true
        · rw [hcleared, if_pos hold] at hin
          simp [hold, hin, hagain, hregisters, hstage, hnotification, pure,
            Except.pure]
        · rw [hcleared, if_neg hold] at hin
          simp [hold, hin, hregisters, hstage, hnotification, pure, Except.pure]
      · have hin : ∀ c', k.kind.registerIn ev.newValue c' = .error .crash := by
          intro c'
          rw [registerIn_eq, if_neg hregisters]
        simp [hin, hregisters]

theorem changePropagateEvent_toChangeEvent :
    changePropagateEvent c ev.toChangeEvent =
      if ev.changeType = .delete ∨ k.registers ev.newValue = true then
        .ok (ev.stages c)
      else .error .crash := by
  have hkey : ev.toChangeEvent.key = ev.key := rfl
  rw [changePropagateEvent_eq, hkey,
    if_pos (KeyKind.hasNamespacePrefix_of_accepts ev.accepted),
    readAs_of_accepts ev.accepted, propagate_toChangeEvent]

end Stages

/-! ## What the watchers learn -/

/-- Each callback was made after the update of the cache; errors are returned
and leave the content of the event.  If no watcher fails, each has got the one
callback that matches the event. -/
structure Notified {k : KeyKind} (ev : KindEvent k) (c : Cache) (ws : Watchers)
    (outcome : Outcome) : Prop where
  content : outcome.cache = ev.content c
  error : ∀ call ∈ outcome.callbacks, ∀ text,
    ws.error call.1 call.2 = some text → outcome.error = some text
  once : (∀ watcher < ws.count, ∀ stage, ws.error watcher stage = none) →
    outcome.callbacks = (List.range ws.count).map
        (fun watcher => (watcher, ⟨ev.content c, ev.notification⟩)) ∧
      outcome.error = none

def Announced {k : KeyKind} (ev : KindEvent k) (c : Cache) (count : ℕ) : Prop :=
  ∀ error, ∃ outcome, c.update ⟨count, error⟩ ev.toChangeEvent = .ok outcome ∧
      Notified ev c ⟨count, error⟩ outcome

section Announced

variable {k : KeyKind} {ev : KindEvent k} {c : Cache}

theorem cache_of_mem_stages {stage : Stage} (h : stage ∈ ev.stages c) :
    stage.cache = ev.content c := by
  rw [KindEvent.stages, List.mem_cons] at h
  rcases h with rfl | h
  · rfl
  · split at h
    · rw [List.mem_singleton] at h
      rw [h]
    · cases h

theorem update_eq (ws : Watchers)
    (h : ev.changeType = .delete ∨ k.registers ev.newValue = true) :
    c.update ws ev.toChangeEvent = .ok (deliver ws c (ev.stages c)) := by
  rw [Cache.update, changePropagateEvent_toChangeEvent, if_pos h]
  rfl

theorem update_crash (ws : Watchers)
    (h : ¬ (ev.changeType = .delete ∨ k.registers ev.newValue = true)) :
    c.update ws ev.toChangeEvent = .error .crash := by
  rw [Cache.update, changePropagateEvent_toChangeEvent, if_neg h]
  rfl

theorem notified_deliver (ws : Watchers)
    (h : ev.stages c = [⟨ev.content c, ev.notification⟩] ∨ ws.count = 0) :
    Notified ev c ws (deliver ws c (ev.stages c)) where
  content := deliver_cache (fun _ => cache_of_mem_stages)
    (by simp [KindEvent.stages])
  error _ hcall _ htext := deliver_error hcall htext
  once hnone := by
    obtain ⟨hcallbacks, herror⟩ := @deliver_of_none ws c (ev.stages c) hnone
    refine ⟨hcallbacks.trans ?_, herror⟩
    rcases h with hstages | hcount
    · rw [hstages, List.flatMap_singleton]
    · simp [hcount]

theorem registers_of_announced {count : ℕ} (h : Announced ev c count) :
    ev.changeType = .delete ∨ k.registers ev.newValue = true := by
  obtain ⟨outcome, hupdate, -⟩ := h fun _ _ => none
  by_contra hnot
  rw [update_crash _ hnot] at hupdate
  cases hupdate

theorem not_announced_of_replaced {count : ℕ} (hput : ev.changeType = .put)
    (hold : ev.prevValue.isSome = true) (hcount : count ≠ 0) :
    ¬ Announced ev c count := by
  intro h
  obtain ⟨outcome, hupdate, hnotified⟩ := h fun _ _ => none
  rw [update_eq _ (registers_of_announced h), Except.ok.injEq] at hupdate
  subst hupdate
  have hcalls := (hnotified.once fun _ _ _ => rfl).1
  rw [(deliver_of_none fun _ _ _ => rfl).1] at hcalls
  have hlength : count + count = count := by
    simpa [KindEvent.stages, hput, hold] using congrArg List.length hcalls
  omega

end Announced

/-- The watchers learn of an event as they should exactly if it is a delete, or
a put of a value that can be registered and replaces none. -/
theorem announced_iff {k : KeyKind} (ev : KindEvent k) (c : Cache) (count : ℕ) :
    Announced ev c count ↔ ev.changeType = .delete ∨
      k.registers ev.newValue = true ∧ (ev.prevValue = none ∨ count = 0) := by
  constructor
  · intro h
    have hok := registers_of_announced h
    cases hchange : ev.changeType with
    | delete => exact Or.inl rfl
    | put =>
        refine Or.inr ⟨hok.resolve_left (by simp [hchange]), ?_⟩
        by_contra hnot
        rw [not_or] at hnot
        exact not_announced_of_replaced hchange
          (Option.isSome_iff_ne_none.mpr hnot.1) hnot.2 h
  · intro h error
    have hok : ev.changeType = .delete ∨ k.registers ev.newValue = true :=
      h.imp_right And.left
    refine ⟨_, update_eq _ hok, notified_deliver _ ?_⟩
    rcases h with hdelete | ⟨-, hprev | hcount⟩
    · left
      simp [KindEvent.stages, hdelete]
    · left
      simp [KindEvent.stages, hprev]
    · exact Or.inr hcount

/-- A pod that gets another address is updated and then added. -/
theorem not_announced_of_newAddress : ¬ @Announced .pod
      ⟨"k8s/namespace/default/pod/web", by decide +kernel, .put,
        some ⟨"web", "default", [], "10.1.1.3"⟩,
        some ⟨"web", "default", [], "10.1.1.2"⟩⟩ .init 1 :=
  not_announced_of_replaced rfl rfl one_ne_zero

end ContivVPP.PolicyCache
