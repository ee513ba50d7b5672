import ContivVPP.KeyDispatch
import ContivVPP.RunCondition

/-!
# Cache and data store

The cache should always hold the objects of the data store.  Changes keep this
up, but a resync event leaves the cache as it was, so that it must not bring
anything new.  An object is kept under its identifier and stored under its key;
each of the two determines the other.
-/

namespace ContivVPP.PolicyCache

open K8s GoMap

/-! ## The data store -/

structure Datastore where
  values : AList fun _ : String => Object
  own : ∀ key obj, values.lookup key = some obj → obj.Valid ∧ key = obj.key

namespace Datastore

def empty : Datastore := ⟨∅, fun key obj h => by simp at h⟩

def put (ds : Datastore) (obj : Object) (hvalid : obj.Valid) : Datastore where
  values := ds.values.insert obj.key obj
  own key obj' h := by
    by_cases hkey : key = obj.key
    · rw [hkey, AList.lookup_insert, Option.some.injEq] at h
      rw [← h]
      exact ⟨hvalid, hkey⟩
    · rw [AList.lookup_insert_ne hkey] at h
      exact ds.own key obj' h

def delete (ds : Datastore) (key : String) : Datastore where
  values := ds.values.erase key
  own key' obj h := by
    by_cases hkey : key' = key
    · rw [hkey, AList.lookup_erase] at h
      cases h
    · rw [AList.lookup_erase_ne hkey] at h
      exact ds.own key' obj h

def Holds (ds : Datastore) (obj : Object) : Prop :=
  ds.values.lookup obj.key = some obj

variable {ds : Datastore} {obj obj' : Object} {key : String}

theorem Holds.valid (h : ds.Holds obj) : obj.Valid := (ds.own _ _ h).1

theorem holds_iff : ds.Holds obj ↔ ∃ key, ds.values.lookup key = some obj := by
  constructor
  · exact fun h => ⟨_, h⟩
  · intro h
    obtain ⟨key, hkey⟩ := h
    have hown := (ds.own key obj hkey).2
    rw [hown] at hkey
    exact hkey

theorem holds_put (hvalid : obj.Valid) : (ds.put obj hvalid).Holds obj' ↔
    obj' = obj ∨ obj'.key ≠ obj.key ∧ ds.Holds obj' := by
  rw [Holds, put]
  by_cases hkey : obj'.key = obj.key
  · rw [hkey, AList.lookup_insert, Option.some.injEq]
    simp [eq_comm]
  · have hne : obj' ≠ obj := fun heq => hkey (by rw [heq])
    rw [AList.lookup_insert_ne hkey]
    simp [hkey, hne, Holds]

theorem holds_delete : (ds.delete key).Holds obj ↔
    obj.key ≠ key ∧ ds.Holds obj := by
  rw [Holds, delete]
  by_cases hkey : obj.key = key
  · rw [hkey, AList.lookup_erase]
    simp
  · rw [AList.lookup_erase_ne hkey]
    simp [hkey, Holds]

end Datastore

/-! ## Events of a run -/

inductive Event where
  | resync (snapshot : Datastore)
  | put (obj : Object) (hvalid : obj.Valid)
  | delete (key : String)

def Event.content (ds : Datastore) : Event → Datastore
  | .resync snapshot => snapshot
  | .put obj hvalid => ds.put obj hvalid
  | .delete key => ds.delete key

def Event.stages (ds : Datastore) (c : Cache) :
    Event → Except Failure (List Stage)
  | .resync snapshot =>
      .ok (c.resync [(namespacePrefix, pairs snapshot.values)])
  | .put obj _ =>
      changePropagateEvent c ⟨obj.key, .put, some obj, ds.values.lookup obj.key⟩
  | .delete key =>
      changePropagateEvent c ⟨key, .delete, none, ds.values.lookup key⟩

/-- An event and the answers of the watchers to it. -/
structure Delivery where
  event : Event
  accepts : Notification → Bool

def content (run : List Delivery) : Datastore :=
  run.foldl (fun ds delivery => delivery.event.content ds) .empty

structure System where
  datastore : Datastore
  cache : Cache

def System.step (s : System) (delivery : Delivery) : Except Failure System := do
  let stages ← delivery.event.stages s.datastore s.cache
  return ⟨delivery.event.content s.datastore,
    settle delivery.accepts s.cache stages⟩

def System.run (deliveries : List Delivery) : Except Failure System :=
  deliveries.foldlM System.step ⟨.empty, .init⟩

def Cache.Holds (c : Cache) : Object → Prop
  | .policy data => ∃ id, c.configuredPolicies.lookup id = some data
  | .pod data => ∃ id, c.configuredPods.lookup id = some data
  | .ns data => ∃ id, c.configuredNamespaces.lookup id = some data

/-- The cache holds the objects of the data store and no others. -/
def System.Exact (s : System) : Prop :=
  ∀ obj, s.cache.Holds obj ↔ s.datastore.Holds obj

/-! ## One kind of objects -/

namespace Kind

variable {β : Type} (kind : Kind β)

/-- A key tells the kind.  Identifiers and keys determine each other, and the
empty message has the identifier of no object. -/
structure Named : Prop where
  exists_object : ∀ obj v, obj.Valid → (kind.object v).Valid →
    obj.key = (kind.object v).key → ∃ u, obj = kind.object u
  key_inj : ∀ u v, (kind.object u).Valid → (kind.object v).Valid →
    ((kind.object u).key = (kind.object v).key ↔ kind.id u = kind.id v)
  empty : ∀ v, (kind.object v).Valid → kind.id v ≠ kind.id kind.empty

def Mirrors (ds : Datastore) (m : AList fun _ : String => β) : Prop :=
  ∀ id v, m.lookup id = some v ↔ id = kind.id v ∧ ds.Holds (kind.object v)

variable {kind} {ds : Datastore} {m m' : AList fun _ : String => β}

theorem Mirrors.exists_iff (h : kind.Mirrors ds m) (v : β) :
    (∃ id, m.lookup id = some v) ↔ ds.Holds (kind.object v) := by
  constructor
  · intro hex
    obtain ⟨id, hid⟩ := hex
    exact ((h id v).mp hid).2
  · intro hholds
    exact ⟨kind.id v, (h _ v).mpr ⟨rfl, hholds⟩⟩

theorem object_injective (kind : Kind β) : Function.Injective kind.object := by
  intro u v heq
  have hvalue := kind.getValue_object u
  rw [heq, kind.getValue_object] at hvalue
  exact (Option.some.inj hvalue).symm

variable {v : β}

theorem Mirrors.put (h : kind.Mirrors ds m) (hnamed : kind.Named)
    (hvalid : (kind.object v).Valid) (hself : m'.lookup (kind.id v) = some v)
    (hother : ∀ id, id ≠ kind.id v → m'.lookup id = m.lookup id) :
    kind.Mirrors (ds.put (kind.object v) hvalid) m' := by
  intro id u
  rw [Datastore.holds_put, kind.object_injective.eq_iff]
  by_cases hid : id = kind.id v
  · rw [hid, hself, Option.some.injEq]
    constructor
    · intro heq
      exact ⟨by rw [heq], Or.inl heq.symm⟩
    · intro hu
      rcases hu.2 with heq | hne
      · exact heq.symm
      · exact absurd ((hnamed.key_inj u v hne.2.valid hvalid).mpr hu.1.symm) hne.1
  · rw [hother id hid, h id u]
    constructor
    · intro hu
      refine ⟨hu.1, Or.inr ⟨fun hkey => hid ?_, hu.2⟩⟩
      rw [hu.1]
      exact (hnamed.key_inj u v hu.2.valid hvalid).mp hkey
    · intro hu
      rcases hu.2 with heq | hne
      · exact absurd (by rw [hu.1, heq]) hid
      · exact ⟨hu.1, hne.2⟩

theorem Mirrors.put_other (h : kind.Mirrors ds m) {obj : Object}
    (hvalid : obj.Valid)
    (hkey : ∀ u, (kind.object u).Valid → (kind.object u).key ≠ obj.key) :
    kind.Mirrors (ds.put obj hvalid) m := by
  intro id u
  rw [h id u, Datastore.holds_put]
  constructor
  · intro hu
    exact ⟨hu.1, Or.inr ⟨hkey u hu.2.valid, hu.2⟩⟩
  · intro hu
    rcases hu.2 with heq | hne
    · refine absurd ?_ (hkey u ?_)
      · rw [heq]
      · rw [heq]
        exact hvalid
    · exact ⟨hu.1, hne.2⟩

theorem Mirrors.delete (h : kind.Mirrors ds m) (hnamed : kind.Named)
    (hvalid : (kind.object v).Valid) :
    kind.Mirrors (ds.delete (kind.object v).key) (m.erase (kind.id v)) := by
  intro id u
  rw [Datastore.holds_delete]
  by_cases hid : id = kind.id v
  · rw [hid, AList.lookup_erase]
    constructor
    · intro hu
      cases hu
    · intro hu
      exact absurd ((hnamed.key_inj u v hu.2.2.valid hvalid).mpr hu.1.symm) hu.2.1
  · rw [AList.lookup_erase_ne hid, h id u]
    constructor
    · intro hu
      refine ⟨hu.1, fun hkey => hid ?_, hu.2⟩
      rw [hu.1]
      exact (hnamed.key_inj u v hu.2.valid hvalid).mp hkey
    · exact fun hu => ⟨hu.1, hu.2.2⟩

theorem Mirrors.delete_other (h : kind.Mirrors ds m) {key : String}
    (hkey : ∀ u, ds.Holds (kind.object u) → (kind.object u).key ≠ key) :
    kind.Mirrors (ds.delete key) m := by
  intro id u
  rw [h id u, Datastore.holds_delete]
  exact ⟨fun hu => ⟨hu.1, hkey u hu.2, hu.2⟩, fun hu => ⟨hu.1, hu.2.2⟩⟩

theorem Mirrors.erase_empty (h : kind.Mirrors ds m) (hnamed : kind.Named) :
    kind.Mirrors ds (m.erase (kind.id kind.empty)) := by
  intro id u
  rw [← h id u]
  by_cases hid : id = kind.id kind.empty
  · rw [hid, AList.lookup_erase]
    constructor
    · intro hu
      cases hu
    · intro hu
      have hu' := (h _ u).mp hu
      exact absurd hu'.1.symm (hnamed.empty u hu'.2.valid)
  · rw [AList.lookup_erase_ne hid]

theorem decode_none : kind.decode none = .ok kind.empty := rfl

theorem decode_object (v : β) : kind.decode (some (kind.object v)) = .ok v := by
  rw [decode, kind.getValue_object]

theorem propagate_put {c : Cache} (h : kind.Mirrors ds (kind.mapping c))
    (hnamed : kind.Named) (hvalid : (kind.object v).Valid)
    (hregister : ∀ m, kind.register (kind.id v) v m =
      some (m.insert (kind.id v) v)) :
    ∃ stages, kind.propagate c ⟨(kind.object v).key, .put,
        some (kind.object v), ds.values.lookup (kind.object v).key⟩ =
          .ok stages ∧ stages ≠ [] ∧
      ∀ stage ∈ stages, ∃ m', stage.cache = kind.withMapping c m' ∧
        kind.Mirrors (ds.put (kind.object v) hvalid) m' := by
  have hin : ∀ c', kind.registerIn v c' = .ok (kind.withMapping c'
      ((kind.mapping c').insert (kind.id v) v)) := by
    intro c'
    rw [registerIn, hregister]
  cases hprev : ds.values.lookup (kind.object v).key with
  | none =>
      refine ⟨[⟨kind.withMapping c ((kind.mapping c).insert (kind.id v) v),
        kind.add v⟩], ?_, by simp, ?_⟩
      · simp only [propagate, decode_object, decode_none, bind, Except.bind, hin]
        rfl
      · intro stage hstage
        rw [List.mem_singleton] at hstage
        subst hstage
        exact ⟨_, rfl, h.put hnamed hvalid (AList.lookup_insert _)
          fun id hid => AList.lookup_insert_ne hid⟩
  | some obj =>
      obtain ⟨hobj, hkey⟩ := ds.own _ obj hprev
      obtain ⟨u, rfl⟩ := hnamed.exists_object obj v hobj hvalid hkey.symm
      have hid := (hnamed.key_inj u v hobj hvalid).mp hkey.symm
      -- The old object leaves the identifier that the new one takes.
      let updated := ((kind.mapping c).erase (kind.id u)).insert (kind.id v) v
      have hupdated : ∀ id, id ≠ kind.id v →
          updated.lookup id = (kind.mapping c).lookup id := by
        intro id hne
        rw [AList.lookup_insert_ne hne, AList.lookup_erase_ne (hid ▸ hne)]
      refine ⟨[⟨kind.withMapping c updated, kind.update u v⟩,
        ⟨kind.withMapping c (updated.insert (kind.id v) v), kind.add v⟩],
        ?_, by simp, ?_⟩
      · simp only [propagate, decode_object, bind, Except.bind,
          Option.isSome_some, if_true, hin, unregisterIn,
          kind.mapping_withMapping, kind.withMapping_withMapping]
        rfl
      · intro stage hstage
        rcases List.mem_pair.mp hstage with rfl | rfl
        · exact ⟨_, rfl, h.put hnamed hvalid (AList.lookup_insert _) hupdated⟩
        · refine ⟨_, rfl, h.put hnamed hvalid (AList.lookup_insert _) ?_⟩
          intro id hne
          rw [AList.lookup_insert_ne hne, hupdated id hne]

theorem propagate_put_crash {c : Cache} {key : String}
    {prevValue : Option Object}
    (hregister : ∀ m, kind.register (kind.id v) v m = none)
    (stages : List Stage) :
    kind.propagate c ⟨key, .put, some (kind.object v), prevValue⟩ ≠
      .ok stages := by
  have hin : ∀ c', kind.registerIn v c' = .error .crash := by
    intro c'
    rw [registerIn, hregister]
  intro hok
  simp only [propagate, decode_object, bind, Except.bind, hin] at hok
  cases hprev : kind.decode prevValue with
  | error e =>
      rw [hprev] at hok
      cases hok
  | ok u =>
      rw [hprev] at hok
      cases prevValue with
      | none => cases hok
      | some obj => cases hok

theorem propagate_delete {c : Cache} (h : kind.Mirrors ds (kind.mapping c))
    (hnamed : kind.Named) (hvalid : (kind.object v).Valid)
    (hprev : ds.values.lookup (kind.object v).key = some (kind.object v)) :
    ∃ stage, kind.propagate c ⟨(kind.object v).key, .delete, none,
        ds.values.lookup (kind.object v).key⟩ = .ok [stage] ∧
      ∃ m', stage.cache = kind.withMapping c m' ∧
        kind.Mirrors (ds.delete (kind.object v).key) m' := by
  refine ⟨⟨kind.unregisterIn v c, kind.del v⟩, ?_, _, rfl, h.delete hnamed hvalid⟩
  rw [propagate, hprev]
  simp only [decode_none, decode_object]
  rfl

theorem propagate_delete_absent {c : Cache}
    (h : kind.Mirrors ds (kind.mapping c)) (hnamed : kind.Named)
    (key : String) :
    ∃ stage, kind.propagate c ⟨key, .delete, none, none⟩ = .ok [stage] ∧
      ∃ m', stage.cache = kind.withMapping c m' ∧ kind.Mirrors ds m' :=
  ⟨⟨kind.unregisterIn kind.empty c, kind.del kind.empty⟩, rfl, _, rfl,
    h.erase_empty hnamed⟩

variable {c : Cache} {stages : List Stage} {key : String}
  {prevValue : Option Object}

def previous (kind : Kind β) (prevValue : Option Object) : Option β :=
  prevValue.bind kind.getValue

def putNotifications (kind : Kind β) (v : β) : Option β → List Notification
  | some u => [kind.update u v, kind.add v]
  | none => [kind.add v]

theorem mem_putNotifications {old : Option β} {n : Notification} :
    n ∈ kind.putNotifications v old ↔
      (∃ u, old = some u ∧ n = kind.update u v) ∨ n = kind.add v := by
  cases old <;> simp [putNotifications]

theorem propagate_put_notifications
    (h : kind.propagate c ⟨key, .put, some (kind.object v), prevValue⟩ =
      .ok stages) :
    stages.map Stage.notification =
      kind.putNotifications v (kind.previous prevValue) := by
  cases prevValue with
  | none =>
      simp only [propagate, decode_object, decode_none, bind, Except.bind] at h
      cases hadded : kind.registerIn v c with
      | error e => simp [hadded] at h
      | ok added =>
          simp only [hadded] at h
          cases h
          rfl
  | some obj =>
      cases hvalue : kind.getValue obj with
      | none =>
          simp [propagate, decode, hvalue, kind.getValue_object, bind,
            Except.bind] at h
      | some u =>
          have hdecode : kind.decode (some obj) = .ok u := by
            simp [decode, hvalue]
          simp only [propagate, decode_object, hdecode, bind, Except.bind,
            Option.isSome_some, if_true] at h
          cases hupdated : kind.registerIn v (kind.unregisterIn u c) with
          | error e => simp [hupdated] at h
          | ok updated =>
              cases hadded : kind.registerIn v updated with
              | error e => simp [hupdated, hadded] at h
              | ok added =>
                  simp only [hupdated, hadded] at h
                  cases h
                  simp [previous, hvalue, putNotifications]

theorem propagate_delete_notifications
    (h : kind.propagate c ⟨key, .delete, none, prevValue⟩ = .ok stages) :
    stages.map Stage.notification =
      [kind.del ((kind.previous prevValue).getD kind.empty)] := by
  cases prevValue with
  | none =>
      cases h
      rfl
  | some obj =>
      cases hvalue : kind.getValue obj with
      | none => simp [propagate, decode, hvalue, bind, Except.bind] at h
      | some u =>
          simp only [propagate, decode, hvalue, bind, Except.bind, pure,
            Except.pure, Except.ok.injEq] at h
          subst h
          simp [previous, hvalue]

end Kind

/-! ## The three kinds -/

theorem id_ne_slash {ns name : String} (hns : ValidName ns) :
    ns ++ "/" ++ name ≠ "" ++ "/" ++ "" := by
  intro heq
  exact hns.1 ((slash_inj_left hns.slashless (by decide)).mp heq).1

theorem KeyKind.named (k : KeyKind) : k.kind.Named where
  exists_object obj v hobj hv hkey := Object.exists_object
    ((Object.keyKind_eq hobj hv hkey).trans (k.keyKind_object v))
  key_inj u v hu hv := by
    cases k with
    | policy =>
        exact (policyKey_inj hu.1 hu.2 hv.1 hv.2).trans
          (id_string_inj hu.1 hv.1).symm
    | pod =>
        exact (podKey_inj hu.1 hu.2 hv.1 hv.2).trans
          (id_string_inj hu.1 hv.1).symm
    | ns => exact namespaceKey_inj
  empty v hv := by
    cases k with
    | policy => exact id_ne_slash hv.1
    | pod => exact id_ne_slash hv.1
    | ns => exact hv.1

theorem policyKind_named : policyKind.Named := KeyKind.named .policy

theorem podKind_named : podKind.Named := KeyKind.named .pod

def Object.propagate (c : Cache) (dataChngEv : ChangeEvent) :
    Object → Except Failure (List Stage)
  | .policy _ => policyKind.propagate c dataChngEv
  | .pod _ => podKind.propagate c dataChngEv
  | .ns _ => namespaceKind.propagate c dataChngEv

theorem Object.propagate_eq (c : Cache) (dataChngEv : ChangeEvent)
    (obj : Object) : obj.propagate c dataChngEv =
      obj.keyKind.kind.propagate c dataChngEv := by
  cases obj <;> rfl

theorem changePropagateEvent_of_key {c : Cache} {obj : Object}
    (hvalid : obj.Valid) {dataChngEv : ChangeEvent}
    (hkey : dataChngEv.key = obj.key) :
    changePropagateEvent c dataChngEv = obj.propagate c dataChngEv := by
  have haccepts := Object.accepts_key hvalid
  rw [changePropagateEvent_eq, hkey,
    if_pos (KeyKind.hasNamespacePrefix_of_accepts haccepts),
    readAs_of_accepts haccepts, Object.propagate_eq]

/-! ## The invariant -/

structure Mirrored (ds : Datastore) (c : Cache) : Prop where
  policies : policyKind.Mirrors ds c.configuredPolicies
  pods : podKind.Mirrors ds c.configuredPods
  namespaces : namespaceKind.Mirrors ds c.configuredNamespaces

theorem mirrored_empty : Mirrored .empty .init where
  policies id v := by simp [Cache.init, Datastore.Holds, Datastore.empty]
  pods id v := by simp [Cache.init, Datastore.Holds, Datastore.empty]
  namespaces id v := by simp [Cache.init, Datastore.Holds, Datastore.empty]

section Mirrored

variable {ds : Datastore} {c : Cache}

theorem Mirrored.holds_iff (h : Mirrored ds c) (obj : Object) :
    c.Holds obj ↔ ds.Holds obj := by
  cases obj with
  | policy data => exact h.policies.exists_iff data
  | pod data => exact h.pods.exists_iff data
  | ns data => exact h.namespaces.exists_iff data

theorem Mirrored.kind (h : Mirrored ds c) (k : KeyKind) :
    k.kind.Mirrors ds (k.kind.mapping c) := by
  cases k with
  | policy => exact h.policies
  | pod => exact h.pods
  | ns => exact h.namespaces

theorem mirrored_of_kinds
    (h : ∀ k : KeyKind, k.kind.Mirrors ds (k.kind.mapping c)) :
    Mirrored ds c :=
  ⟨h .policy, h .pod, h .ns⟩

/-- A change of one mapping, where the two others already mirror the new
content. -/
theorem mirrored_withMapping {k : KeyKind} {m : AList fun _ : String => k.Data}
    (hother : ∀ k' ≠ k, k'.kind.Mirrors ds (k'.kind.mapping c))
    (hm : k.kind.Mirrors ds m) : Mirrored ds (k.kind.withMapping c m) := by
  refine mirrored_of_kinds fun k' => ?_
  by_cases hk : k' = k
  · subst hk
    rw [k'.kind.mapping_withMapping]
    exact hm
  · rw [KeyKind.mapping_withMapping_of_ne hk]
    exact hother k' hk

theorem key_ne_of_ne {k k' : KeyKind} (hne : k' ≠ k) {u : k'.Data} {v : k.Data}
    (hu : (k'.kind.object u).Valid) (hv : (k.kind.object v).Valid) :
    (k'.kind.object u).key ≠ (k.kind.object v).key := by
  intro hkey
  have hkind := Object.keyKind_eq hu hv hkey
  rw [k'.keyKind_object, k.keyKind_object] at hkind
  exact hne hkind

theorem Mirrored.put (h : Mirrored ds c) {obj : Object} (hvalid : obj.Valid)
    (hpods : ∀ policy, obj = .policy policy → policy.pods ≠ none) :
    ∃ stages, (Event.put obj hvalid).stages ds c = .ok stages ∧ stages ≠ [] ∧
      ∀ stage ∈ stages, Mirrored (ds.put obj hvalid) stage.cache := by
  obtain ⟨k, hk⟩ : ∃ k, obj.keyKind = k := ⟨_, rfl⟩
  obtain ⟨v, rfl⟩ := Object.exists_object hk
  have hregisters : k.registers v = true := by
    cases k with
    | policy => exact Option.isSome_iff_ne_none.mpr (hpods v rfl)
    | pod => rfl
    | ns => rfl
  obtain ⟨stages, hok, hne, hall⟩ := Kind.propagate_put (h.kind k) k.named
    hvalid fun m => by rw [k.register_eq, if_pos hregisters]
  refine ⟨stages, ?_, hne, fun stage hstage => ?_⟩
  · rw [Event.stages, changePropagateEvent_of_key hvalid rfl,
      Object.propagate_eq, k.keyKind_object]
    exact hok
  · obtain ⟨m', hcache, hm'⟩ := hall stage hstage
    rw [hcache]
    exact mirrored_withMapping (fun k' hk' => (h.kind k').put_other hvalid
      fun u hu => key_ne_of_ne hk' hu hvalid) hm'

theorem Mirrored.delete_other (h : Mirrored ds c) {key : String}
    (hkey : ∀ obj, ds.Holds obj → obj.key ≠ key) :
    Mirrored (ds.delete key) c where
  policies := h.policies.delete_other fun _ hu => hkey _ hu
  pods := h.pods.delete_other fun _ hu => hkey _ hu
  namespaces := h.namespaces.delete_other fun _ hu => hkey _ hu

theorem Mirrored.delete_absent (h : Mirrored ds c) {key : String}
    (hnone : ds.values.lookup key = none) :
    ∃ stages, (Event.delete key).stages ds c = .ok stages ∧
      ∀ stage ∈ stages, Mirrored (ds.delete key) stage.cache := by
  have hkey : ∀ obj, ds.Holds obj → obj.key ≠ key := by
    intro obj hobj heq
    rw [Datastore.Holds, heq, hnone] at hobj
    cases hobj
  rw [Event.stages, hnone, changePropagateEvent_eq]
  split
  · obtain ⟨stage, hok, m', hcache, hm'⟩ := Kind.propagate_delete_absent
      (h.kind (readAs key)) (readAs key).named key
    refine ⟨[stage], hok, fun stage' hstage => ?_⟩
    rw [List.mem_singleton.mp hstage, hcache]
    exact (mirrored_withMapping (fun k' _ => h.kind k') hm').delete_other hkey
  · exact ⟨[], rfl, by simp⟩

theorem Mirrored.delete_object (h : Mirrored ds c) {obj : Object}
    (hobj : ds.Holds obj) :
    ∃ stage, (Event.delete obj.key).stages ds c = .ok [stage] ∧
      Mirrored (ds.delete obj.key) stage.cache := by
  have hvalid := hobj.valid
  obtain ⟨k, hk⟩ : ∃ k, obj.keyKind = k := ⟨_, rfl⟩
  obtain ⟨v, rfl⟩ := Object.exists_object hk
  obtain ⟨stage, hok, m', hcache, hm'⟩ :=
    Kind.propagate_delete (h.kind k) k.named hvalid hobj
  refine ⟨stage, ?_, ?_⟩
  · rw [Event.stages, changePropagateEvent_of_key hvalid rfl,
      Object.propagate_eq, k.keyKind_object]
    exact hok
  · rw [hcache]
    exact mirrored_withMapping (fun k' hk' => (h.kind k').delete_other
      fun u hu => key_ne_of_ne hk' hu.valid hvalid) hm'

end Mirrored

/-! ## Runs -/

/-- Whether the event leaves the cache exact: a resync event brings nothing
new, and a policy comes with a selector. -/
def Event.Harmless (ds : Datastore) : Event → Prop
  | .resync snapshot => ∀ obj, snapshot.Holds obj ↔ ds.Holds obj
  | .put obj _ => ∀ policy, obj = .policy policy → policy.pods ≠ none
  | .delete _ => True

theorem content_append (before : List Delivery) (delivery : Delivery) :
    content (before ++ [delivery]) = delivery.event.content (content before) := by
  simp [content]

theorem System.run_append (before : List Delivery) (delivery : Delivery) :
    System.run (before ++ [delivery]) =
      (System.run before).bind fun s => s.step delivery := by
  simp only [System.run, List.foldlM_append, List.foldlM_cons,
    List.foldlM_nil, bind_pure]
  rfl

theorem Mirrored.step {s : System} (h : Mirrored s.datastore s.cache)
    {delivery : Delivery} (hharmless : delivery.event.Harmless s.datastore) :
    ∃ s', s.step delivery = .ok s' ∧
      s'.datastore = delivery.event.content s.datastore ∧
      Mirrored s'.datastore s'.cache := by
  obtain ⟨event, accepts⟩ := delivery
  suffices hstages : ∃ stages, event.stages s.datastore s.cache = .ok stages ∧
      Mirrored (event.content s.datastore) (settle accepts s.cache stages) by
    obtain ⟨stages, hok, hmirrored⟩ := hstages
    refine ⟨⟨event.content s.datastore, settle accepts s.cache stages⟩, ?_,
      rfl, hmirrored⟩
    rw [System.step, hok]
    rfl
  cases event with
  | resync snapshot =>
      refine ⟨_, rfl, settle_of_ne_nil (by simp [Cache.resync]) ?_⟩
      intro stage hstage
      rw [List.mem_singleton.mp hstage]
      refine mirrored_of_kinds fun k id v => ?_
      rw [h.kind k id v, ← hharmless]
      rfl
  | put obj hvalid =>
      obtain ⟨stages, hok, hne, hall⟩ := h.put hvalid hharmless
      exact ⟨stages, hok, settle_of_ne_nil hne hall⟩
  | delete key =>
      cases hlookup : s.datastore.values.lookup key with
      | none =>
          obtain ⟨stages, hok, hall⟩ := h.delete_absent hlookup
          refine ⟨stages, hok, settle_of_forall (h.delete_other ?_) hall⟩
          intro obj hobj heq
          rw [Datastore.Holds, heq, hlookup] at hobj
          cases hobj
      | some obj =>
          obtain ⟨_, hkey⟩ := s.datastore.own key obj hlookup
          subst hkey
          obtain ⟨stage, hok, hstage⟩ := h.delete_object hlookup
          refine ⟨[stage], hok, settle_of_ne_nil (by simp) ?_⟩
          intro stage' hmem
          rw [List.mem_singleton.mp hmem]
          exact hstage

/-- An event that is not harmless leaves the cache different from the data
store, or crashes the agent. -/
theorem Mirrored.harmless {s s' : System}
    (h : Mirrored s.datastore s.cache) {delivery : Delivery}
    (hstep : s.step delivery = .ok s') (hexact : s'.Exact) :
    delivery.event.Harmless s.datastore := by
  obtain ⟨event, accepts⟩ := delivery
  cases event with
  | resync snapshot =>
      intro obj
      have hs' : s' = ⟨snapshot, s.cache⟩ := by
        have hcache : ∀ stages, stages =
            s.cache.resync [(namespacePrefix, pairs snapshot.values)] →
            settle accepts s.cache stages = s.cache := by
          intro stages hstages
          refine settle_of_forall (P := (· = s.cache)) rfl ?_
          intro stage hmem
          rw [hstages, Cache.resync, List.mem_singleton] at hmem
          rw [hmem]
        rw [System.step] at hstep
        have heq := (Except.ok.inj hstep).symm
        rw [heq, hcache _ rfl]
        rfl
      rw [← h.holds_iff obj]
      have hobj := hexact obj
      rw [hs'] at hobj
      exact hobj.symm
  | put obj hvalid =>
      intro policy heq hnone
      subst heq
      have hregister : ∀ m, policyKind.register (policyKind.id policy) policy
          m = none := by
        intro m
        refine (KeyKind.register_eq .policy _ policy m).trans (if_neg ?_)
        change ¬ policy.pods.isSome = true
        rw [hnone]
        exact Bool.false_ne_true
      rw [System.step, Event.stages,
        changePropagateEvent_of_key hvalid rfl] at hstep
      cases hpropagate : Object.propagate s.cache
          ⟨(Object.policy policy).key, .put, some (.policy policy),
            s.datastore.values.lookup (Object.policy policy).key⟩
          (.policy policy) with
      | error e =>
          rw [hpropagate] at hstep
          cases hstep
      | ok stages =>
          exact Kind.propagate_put_crash hregister stages hpropagate
  | delete key => trivial

/-- The cache is exact after every event of a run just if each event is
harmless for the content of the data store before it. -/
theorem run_exact_iff_harmless (run : List Delivery) :
    (∀ before, before <+: run → ∃ s, System.run before = .ok s ∧
      s.datastore = content before ∧ s.Exact) ↔
    ∀ before delivery, before ++ [delivery] <+: run →
      delivery.event.Harmless (content before) := by
  refine RunCondition.forall_prefix_iff
    (Q := fun before => ∃ s, System.run before = .ok s ∧
      s.datastore = content before ∧ Mirrored s.datastore s.cache)
    ⟨_, rfl, rfl, mirrored_empty⟩ ?_ ?_ ?_
  · intro before hbefore
    obtain ⟨s, hrun, hds, hmirrored⟩ := hbefore
    exact ⟨s, hrun, hds, hmirrored.holds_iff⟩
  · intro before delivery _ hbefore hharmless
    obtain ⟨s, hrun, hds, hmirrored⟩ := hbefore
    rw [← hds] at hharmless
    obtain ⟨s', hstep, hds', hmirrored'⟩ := hmirrored.step hharmless
    refine ⟨s', ?_, ?_, hmirrored'⟩
    · rw [System.run_append, hrun]
      exact hstep
    · rw [hds', hds, content_append]
  · intro before delivery _ hbefore hafter
    obtain ⟨s, hrun, hds, hmirrored⟩ := hbefore
    obtain ⟨s', hrun', _, hexact⟩ := hafter
    rw [System.run_append, hrun] at hrun'
    rw [← hds]
    exact hmirrored.harmless hrun' hexact

def firstResync : List Delivery :=
  [⟨.resync (.put .empty (.pod ⟨"web", "default", [], "10.1.1.2"⟩)
    (by decide)), fun _ => true⟩]

/-- After the resync event the cache does not hold the pod. -/
theorem not_exact_of_firstResync : ∃ s,
    System.run firstResync = .ok s ∧ s.datastore = content firstResync ∧
      ¬ s.Exact := by
  refine ⟨⟨content firstResync, .init⟩, rfl, rfl, ?_⟩
  intro hexact
  obtain ⟨id, hid⟩ :=
    (hexact (.pod ⟨"web", "default", [], "10.1.1.2"⟩)).mpr rfl
  cases hid

end ContivVPP.PolicyCache
