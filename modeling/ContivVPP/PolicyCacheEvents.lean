import ContivVPP.PolicyCache

/-!
# Changes of the Kubernetes state

The cache is told of each change of the data store, and of the whole content
in a resync event.  A change registers or unregisters an object and then
notifies the watchers; an error of a watcher ends the processing.  The three
kinds of objects are treated alike.
-/

namespace ContivVPP.PolicyCache

open K8s GoMap

/-! ## Objects and notifications -/

inductive Object where
  | policy (data : Policy)
  | pod (data : Pod)
  | ns (data : K8s.Namespace)
  deriving DecidableEq

def Object.key : Object → String
  | .policy data => policyKey data.name data.ns
  | .pod data => podKey data.name data.ns
  | .ns data => namespaceKey data.name

/-- The object has a name that Kubernetes accepts. -/
def Object.Valid : Object → Prop
  | .policy data => ValidName data.ns ∧ ValidName data.name
  | .pod data => ValidName data.ns ∧ ValidName data.name
  | .ns data => ValidName data.name

instance : ∀ obj : Object, Decidable obj.Valid
  | .policy data =>
      inferInstanceAs (Decidable (ValidName data.ns ∧ ValidName data.name))
  | .pod data =>
      inferInstanceAs (Decidable (ValidName data.ns ∧ ValidName data.name))
  | .ns data => inferInstanceAs (Decidable (ValidName data.name))

structure DataResyncEvent where
  namespaces : List K8s.Namespace
  pods : List Pod
  policies : List Policy
  deriving DecidableEq

inductive Notification where
  | resync (data : DataResyncEvent)
  | addPolicy (policy : Policy)
  | delPolicy (policy : Policy)
  | updatePolicy (oldPolicy newPolicy : Policy)
  | addPod (pod : Pod)
  | delPod (pod : Pod)
  | updatePod (oldPod newPod : Pod)
  | addNamespace (ns : K8s.Namespace)
  | delNamespace (ns : K8s.Namespace)
  | updateNamespace (oldNs newNs : K8s.Namespace)
  deriving DecidableEq

structure Stage where
  cache : Cache
  notification : Notification

inductive ChangeType where
  | put
  | delete
  deriving DecidableEq

structure ChangeEvent where
  key : String
  changeType : ChangeType
  value : Option Object
  prevValue : Option Object

inductive Failure where
  | crash
  | decode
  deriving DecidableEq

/-! ## Kinds of objects -/

structure Kind (β : Type) where
  object : β → Object
  empty : β
  getValue : Object → Option β
  id : β → String
  mapping : Cache → AList fun _ : String => β
  withMapping : Cache → (AList fun _ : String => β) → Cache
  register : String → β → (AList fun _ : String => β) →
    Option (AList fun _ : String => β)
  add : β → Notification
  del : β → Notification
  update : β → β → Notification
  mapping_withMapping : ∀ c m, mapping (withMapping c m) = m
  withMapping_withMapping : ∀ c m m',
    withMapping (withMapping c m) m' = withMapping c m'
  getValue_object : ∀ v, getValue (object v) = some v

def policyKind : Kind Policy where
  object := .policy
  empty := ⟨"", "", none, .default, [], []⟩
  getValue
    | .policy data => some data
    | _ => none
  id policy := policy.id.string
  mapping := Cache.configuredPolicies
  withMapping c m := { c with configuredPolicies := m }
  register := PolicyIdx.registerPolicy
  add := .addPolicy
  del := .delPolicy
  update := .updatePolicy
  mapping_withMapping _ _ := rfl
  withMapping_withMapping _ _ _ := rfl
  getValue_object _ := rfl

def podKind : Kind Pod where
  object := .pod
  empty := ⟨"", "", [], ""⟩
  getValue
    | .pod data => some data
    | _ => none
  id pod := pod.id.string
  mapping := Cache.configuredPods
  withMapping c m := { c with configuredPods := m }
  register id pod m := some (m.insert id pod)
  add := .addPod
  del := .delPod
  update := .updatePod
  mapping_withMapping _ _ := rfl
  withMapping_withMapping _ _ _ := rfl
  getValue_object _ := rfl

def namespaceKind : Kind K8s.Namespace where
  object := .ns
  empty := ⟨"", []⟩
  getValue
    | .ns data => some data
    | _ => none
  id ns := ns.name
  mapping := Cache.configuredNamespaces
  withMapping c m := { c with configuredNamespaces := m }
  register id ns m := some (m.insert id ns)
  add := .addNamespace
  del := .delNamespace
  update := .updateNamespace
  mapping_withMapping _ _ := rfl
  withMapping_withMapping _ _ _ := rfl
  getValue_object _ := rfl

namespace Kind

variable {β : Type} (kind : Kind β)

def decode : Option Object → Except Failure β
  | none => .ok kind.empty
  | some obj =>
      match kind.getValue obj with
      | some v => .ok v
      | none => .error .decode

def registerIn (v : β) (c : Cache) : Except Failure Cache :=
  match kind.register (kind.id v) v (kind.mapping c) with
  | some m => .ok (kind.withMapping c m)
  | none => .error .crash

def unregisterIn (v : β) (c : Cache) : Cache :=
  kind.withMapping c ((kind.mapping c).erase (kind.id v))

/-- A change of an object of the kind.  After an update, the new object is
registered and announced once more. -/
def propagate (c : Cache) (dataChngEv : ChangeEvent) :
    Except Failure (List Stage) := do
  let value ← kind.decode dataChngEv.value
  let prevValue ← kind.decode dataChngEv.prevValue
  match dataChngEv.changeType with
  | .delete =>
      return [⟨kind.unregisterIn prevValue c, kind.del prevValue⟩]
  | .put =>
      if dataChngEv.prevValue.isSome then
        let updated ← kind.registerIn value (kind.unregisterIn prevValue c)
        let added ← kind.registerIn value updated
        return [⟨updated, kind.update prevValue value⟩, ⟨added, kind.add value⟩]
      else
        let added ← kind.registerIn value c
        return [⟨added, kind.add value⟩]

end Kind

/-! ## Events -/

def changePropagateEvent (c : Cache) (dataChngEv : ChangeEvent) :
    Except Failure (List Stage) :=
  if hasNamespacePrefix dataChngEv.key then
    match parsePolicyFromKey dataChngEv.key with
    | .ok _ => policyKind.propagate c dataChngEv
    | .error _ =>
        match parsePodFromKey dataChngEv.key with
        | .ok _ => podKind.propagate c dataChngEv
        | .error _ => namespaceKind.propagate c dataChngEv
  else .ok []

/-- One value of a resync event.  A value that cannot be read is skipped. -/
def resyncParseValue (event : DataResyncEvent) (evData : String × Object) :
    DataResyncEvent :=
  match parsePolicyFromKey evData.1 with
  | .ok _ =>
      { event with
        policies := event.policies ++ (policyKind.getValue evData.2).toList }
  | .error _ =>
      match parsePodFromKey evData.1 with
      | .ok _ =>
          { event with
            pods := event.pods ++ (podKind.getValue evData.2).toList }
      | .error _ =>
          { event with
            namespaces :=
              event.namespaces ++ (namespaceKind.getValue evData.2).toList }

def resyncParseEvent (values : List (String × List (String × Object))) :
    DataResyncEvent :=
  values.foldl (fun event resyncData =>
    if hasNamespacePrefix resyncData.1 then
      resyncData.2.foldl resyncParseValue event
    else event) ⟨[], [], []⟩

/-- Only the watchers see the values of a resync event. -/
def Cache.resync (c : Cache) (values : List (String × List (String × Object))) :
    List Stage :=
  [⟨c, .resync (resyncParseEvent values)⟩]

/-- The cache after the stages, up to the first notification that a watcher
does not accept. -/
def settle (accepts : Notification → Bool) : Cache → List Stage → Cache
  | c, [] => c
  | _, stage :: stages =>
      if accepts stage.notification then settle accepts stage.cache stages
      else stage.cache

theorem settle_of_forall {accepts : Notification → Bool} {P : Cache → Prop}
    {c : Cache} {stages : List Stage} (hc : P c)
    (h : ∀ stage ∈ stages, P stage.cache) : P (settle accepts c stages) := by
  induction stages generalizing c with
  | nil => exact hc
  | cons stage stages ih =>
      have hstage := h stage List.mem_cons_self
      rw [settle]
      split
      · exact ih hstage fun s hs => h s (List.mem_cons_of_mem stage hs)
      · exact hstage

theorem settle_of_ne_nil {accepts : Notification → Bool} {P : Cache → Prop}
    {c : Cache} {stages : List Stage} (hne : stages ≠ [])
    (h : ∀ stage ∈ stages, P stage.cache) : P (settle accepts c stages) := by
  cases stages with
  | nil => exact absurd rfl hne
  | cons stage stages =>
      have hstage := h stage List.mem_cons_self
      rw [settle]
      split
      · exact settle_of_forall hstage
          fun s hs => h s (List.mem_cons_of_mem stage hs)
      · exact hstage

end ContivVPP.PolicyCache
