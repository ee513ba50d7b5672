import ContivVPP.PolicyCacheEvents

/-!
# The kind of a key

The keys of policies, pods and namespaces start with the same prefix.  The
cache tries the parsers of policies and pods in turn; whatever they refuse is
read as a namespace, without a look at the parser of namespaces.  This is the
kind of the key only if one of the three parsers accepts it.
-/

namespace ContivVPP.PolicyCache

open K8s

/-! ## Parsers -/

def keyParts (key : String) : Option (List String) :=
  if hasNamespacePrefix key then
    some (splitSlash
      (String.ofList (key.toList.drop namespacePrefix.toList.length)))
  else none

theorem parseFromKey_isOk_iff {kind key : String} :
    (parseFromKey kind key).isOk = true ↔
      ∃ ns name, keyParts key = some [ns, kind, name] := by
  rw [parseFromKey, keyParts]
  split
  · split
    case h_1 ns kind' name heq =>
      rw [heq]
      by_cases hkind : kind' = kind
      · simp [hkind, Except.isOk, Except.toBool]
      · simp [hkind, Except.isOk, Except.toBool]
    case h_2 hparts =>
      simp only [Except.isOk, Except.toBool, Bool.false_eq_true, false_iff]
      intro hex
      obtain ⟨ns, name, heq⟩ := hex
      exact hparts ns kind name (Option.some.inj heq)
  · simp [Except.isOk, Except.toBool]

theorem parseNamespaceFromKey_isOk_iff {key : String} :
    (parseNamespaceFromKey key).isOk = true ↔ ∃ ns, keyParts key = some [ns] := by
  rw [parseNamespaceFromKey, keyParts]
  split
  · split
    case h_1 ns heq =>
      rw [heq]
      simp [Except.isOk, Except.toBool]
    case h_2 hparts =>
      simp only [Except.isOk, Except.toBool, Bool.false_eq_true, false_iff]
      intro hex
      obtain ⟨ns, heq⟩ := hex
      exact hparts ns (Option.some.inj heq)
  · simp [Except.isOk, Except.toBool]

inductive KeyKind where
  | policy
  | pod
  | ns
  deriving DecidableEq

namespace KeyKind

def Data : KeyKind → Type
  | .policy => Policy
  | .pod => Pod
  | .ns => K8s.Namespace

def kind : (k : KeyKind) → Kind k.Data
  | .policy => policyKind
  | .pod => podKind
  | .ns => namespaceKind

def accepts : KeyKind → String → Bool
  | .policy, key => (parsePolicyFromKey key).isOk
  | .pod, key => (parsePodFromKey key).isOk
  | .ns, key => (parseNamespaceFromKey key).isOk

def contents : (k : KeyKind) → DataResyncEvent → List k.Data
  | .policy, event => event.policies
  | .pod, event => event.pods
  | .ns, event => event.namespaces

def Parts : KeyKind → List String → Prop
  | .policy, parts => ∃ ns name, parts = [ns, "policy", name]
  | .pod, parts => ∃ ns name, parts = [ns, "pod", name]
  | .ns, parts => ∃ ns, parts = [ns]

variable {k k' : KeyKind} {key : String}

theorem accepts_iff : k.accepts key = true ↔ ∃ parts, keyParts key = some parts ∧
      k.Parts parts := by
  cases k with
  | policy =>
      rw [accepts, parsePolicyFromKey, parseFromKey_isOk_iff]
      simp only [Parts]
      grind
  | pod =>
      rw [accepts, parsePodFromKey, parseFromKey_isOk_iff]
      simp only [Parts]
      grind
  | ns =>
      rw [accepts, parseNamespaceFromKey_isOk_iff]
      simp only [Parts]
      grind

theorem Parts.unique {parts : List String} (h : k.Parts parts)
    (h' : k'.Parts parts) : k = k' := by
  cases k <;> cases k' <;> simp only [Parts] at h h' <;> grind

theorem eq_of_accepts (h : k.accepts key = true)
    (h' : k'.accepts key = true) : k = k' := by
  obtain ⟨parts, hparts, hk⟩ := accepts_iff.mp h
  obtain ⟨parts', hparts', hk'⟩ := accepts_iff.mp h'
  rw [hparts, Option.some.injEq] at hparts'
  subst hparts'
  exact hk.unique hk'

theorem hasNamespacePrefix_of_accepts (h : k.accepts key = true) :
    hasNamespacePrefix key = true := by
  obtain ⟨parts, hparts, -⟩ := accepts_iff.mp h
  rw [keyParts] at hparts
  by_contra hpre
  rw [if_neg hpre] at hparts
  cases hparts

end KeyKind

/-- A value that the index function can deal with. -/
def KeyKind.registers : (k : KeyKind) → k.Data → Bool
  | .policy, data => (Policy.pods data).isSome
  | .pod, _ => true
  | .ns, _ => true

theorem KeyKind.register_eq (k : KeyKind) (id : String) (v : k.Data)
    (m : AList fun _ : String => k.Data) :
    k.kind.register id v m =
      if k.registers v then some (m.insert id v) else none := by
  cases k with
  | policy =>
      obtain ⟨name, ns, pods, policyType, ingress, egress⟩ := v
      cases pods with
      | none => rfl
      | some pods => rfl
  | pod => exact (if_pos rfl).symm
  | ns => exact (if_pos rfl).symm

theorem KeyKind.mapping_withMapping_of_ne {k k' : KeyKind} (h : k' ≠ k)
    (c : Cache) (m : AList fun _ : String => k.Data) :
    k'.kind.mapping (k.kind.withMapping c m) = k'.kind.mapping c := by
  cases k <;> cases k' <;> first | rfl | exact absurd rfl h

/-! ## Keys of objects -/

def Object.keyKind : Object → KeyKind
  | .policy _ => .policy
  | .pod _ => .pod
  | .ns _ => .ns

theorem KeyKind.keyKind_object (k : KeyKind) (v : k.Data) :
    (k.kind.object v).keyKind = k := by
  cases k <;> rfl

namespace Object

variable {obj obj' : Object}

theorem exists_object {k : KeyKind} (h : obj.keyKind = k) :
    ∃ v, obj = k.kind.object v := by
  subst h
  cases obj with
  | policy data => exact ⟨data, rfl⟩
  | pod data => exact ⟨data, rfl⟩
  | ns data => exact ⟨data, rfl⟩

theorem accepts_key (hvalid : obj.Valid) :
    obj.keyKind.accepts obj.key = true := by
  cases obj with
  | policy data =>
      have hparse := parsePolicyFromKey_policyKey hvalid.1.slashless
        hvalid.2.slashless
      rw [keyKind, KeyKind.accepts, key, hparse]
      rfl
  | pod data =>
      have hparse := parsePodFromKey_podKey hvalid.1.slashless hvalid.2.slashless
      rw [keyKind, KeyKind.accepts, key, hparse]
      rfl
  | ns data =>
      have hparse := parseNamespaceFromKey_namespaceKey hvalid.slashless
      rw [keyKind, KeyKind.accepts, key, hparse]
      rfl

theorem keyKind_eq (hvalid : obj.Valid) (hvalid' : obj'.Valid)
    (hkey : obj.key = obj'.key) : obj.keyKind = obj'.keyKind := by
  have haccepts := accepts_key hvalid
  rw [hkey] at haccepts
  exact KeyKind.eq_of_accepts haccepts (accepts_key hvalid')

end Object

/-! ## Dispatch -/

def readAs (key : String) : KeyKind :=
  if KeyKind.policy.accepts key then .policy
  else if KeyKind.pod.accepts key then .pod
  else .ns

variable {k : KeyKind} {key : String}

theorem readAs_of_accepts (h : k.accepts key = true) : readAs key = k := by
  rw [readAs]
  split
  case isTrue hpolicy => exact KeyKind.eq_of_accepts hpolicy h
  case isFalse hpolicy =>
    split
    case isTrue hpod => exact KeyKind.eq_of_accepts hpod h
    case isFalse hpod =>
      cases k with
      | policy => exact absurd h hpolicy
      | pod => exact absurd h hpod
      | ns => rfl

theorem readAs_of_not_accepts (h : ∀ k, KeyKind.accepts k key = false) :
    readAs key = .ns := by
  simp [readAs, h]

theorem changePropagateEvent_eq (c : Cache) (dataChngEv : ChangeEvent) :
    changePropagateEvent c dataChngEv =
      if hasNamespacePrefix dataChngEv.key then
        (readAs dataChngEv.key).kind.propagate c dataChngEv
      else .ok [] := by
  rw [changePropagateEvent, readAs, KeyKind.accepts, KeyKind.accepts]
  cases parsePolicyFromKey dataChngEv.key with
  | ok parts => rfl
  | error text =>
      cases parsePodFromKey dataChngEv.key with
      | ok parts => rfl
      | error text => rfl

def KeyKind.read (k : KeyKind) (evData : String × Object) : List k.Data :=
  if readAs evData.1 = k then (k.kind.getValue evData.2).toList else []

theorem contents_resyncParseValue (k : KeyKind) (event : DataResyncEvent)
    (evData : String × Object) :
    k.contents (resyncParseValue event evData) =
      k.contents event ++ k.read evData := by
  rw [resyncParseValue, KeyKind.read, readAs, KeyKind.accepts, KeyKind.accepts]
  -- The objects of the two other kinds stay as they are.
  have hsame : ∀ k' : KeyKind, k'.contents event = k'.contents event ++ [] :=
    fun k' => (List.append_nil _).symm
  cases parsePolicyFromKey evData.1 with
  | ok parts =>
      cases k with
      | policy => rfl
      | pod => exact hsame .pod
      | ns => exact hsame .ns
  | error text =>
      cases parsePodFromKey evData.1 with
      | ok parts =>
          cases k with
          | policy => exact hsame .policy
          | pod => rfl
          | ns => exact hsame .ns
      | error text =>
          cases k with
          | policy => exact hsame .policy
          | pod => exact hsame .pod
          | ns => rfl

def KeyKind.readGroup (k : KeyKind)
    (resyncData : String × List (String × Object)) : List k.Data :=
  if hasNamespacePrefix resyncData.1 then resyncData.2.flatMap k.read else []

theorem contents_foldl_resyncParseValue (k : KeyKind)
    (items : List (String × Object)) (event : DataResyncEvent) :
    k.contents (items.foldl resyncParseValue event) =
      k.contents event ++ items.flatMap k.read := by
  induction items generalizing event with
  | nil => simp
  | cons evData items ih =>
      rw [List.foldl_cons, ih, contents_resyncParseValue, List.flatMap_cons,
        List.append_assoc]

theorem contents_resyncParseEvent (k : KeyKind)
    (values : List (String × List (String × Object))) :
    k.contents (resyncParseEvent values) = values.flatMap k.readGroup := by
  have hfold : ∀ event : DataResyncEvent,
      k.contents (values.foldl (fun event resyncData =>
        if hasNamespacePrefix resyncData.1 then
          resyncData.2.foldl resyncParseValue event
        else event) event) =
      k.contents event ++ values.flatMap k.readGroup := by
    induction values with
    | nil => simp
    | cons resyncData values ih =>
        intro event
        rw [List.foldl_cons, ih, List.flatMap_cons, ← List.append_assoc,
          KeyKind.readGroup]
        split
        · rw [contents_foldl_resyncParseValue]
        · rw [List.append_nil]
  have hempty : k.contents ⟨[], [], []⟩ = [] := by
    cases k <;> rfl
  rw [resyncParseEvent, hfold, hempty, List.nil_append]

/-! ## Keys that are processed as what they are -/

structure ParsingInverts : Prop where
  pod : ∀ name ns, Slashless name → Slashless ns →
    parsePodFromKey (podKey name ns) = .ok (name, ns)
  policy : ∀ name ns, Slashless name → Slashless ns →
    parsePolicyFromKey (policyKey name ns) = .ok (name, ns)
  ns : ∀ name, Slashless name →
    parseNamespaceFromKey (namespaceKey name) = .ok name

theorem parsingInverts : ParsingInverts where
  pod _ _ hname hns := parsePodFromKey_podKey hns hname
  policy _ _ hname hns := parsePolicyFromKey_policyKey hns hname
  ns _ hname := parseNamespaceFromKey_namespaceKey hname

/-- A change of the key is processed under the kind whose parser accepts it.
A key that no parser accepts is ignored. -/
structure ChangeClassified (key : String) : Prop where
  accepted : ∀ (c : Cache) (dataChngEv : ChangeEvent) (k : KeyKind),
    dataChngEv.key = key → k.accepts key = true →
      changePropagateEvent c dataChngEv = k.kind.propagate c dataChngEv
  ignored : ∀ (c : Cache) (dataChngEv : ChangeEvent),
    dataChngEv.key = key → (∀ k, KeyKind.accepts k key = false) →
      changePropagateEvent c dataChngEv = .ok []

/-- Wherever a value of the key stands in a resync event, under the watched
prefix `outer`, it is passed on as an object of the kind whose parser accepts
the key, and as no other. -/
def ResyncClassified (outer key : String) : Prop :=
  ∀ (before after : List (String × List (String × Object)))
    (items items' : List (String × Object)) (obj : Object) (k : KeyKind),
    k.contents (resyncParseEvent
        (before ++ (outer, items ++ (key, obj) :: items') :: after)) =
      k.contents (resyncParseEvent (before ++ [(outer, items)])) ++
        (if hasNamespacePrefix outer = true ∧ k.accepts key = true then
          (k.kind.getValue obj).toList else []) ++
        k.contents (resyncParseEvent ((outer, items') :: after))

structure Classified (outer key : String) : Prop where
  inverts : ParsingInverts
  unique : ∀ k k' : KeyKind, k.accepts key = true → k'.accepts key = true → k = k'
  change : ChangeClassified key
  resync : ResyncClassified outer key

theorem changeClassified_iff (key : String) : ChangeClassified key ↔
      (∃ k, KeyKind.accepts k key = true) ∨ hasNamespacePrefix key = false := by
  constructor
  · intro h
    by_contra hnot
    rw [not_or] at hnot
    have hnone : ∀ k, KeyKind.accepts k key = false := fun k =>
      Bool.eq_false_iff.mpr fun hk => hnot.1 ⟨k, hk⟩
    have hpre : hasNamespacePrefix key = true := by simpa using hnot.2
    -- The value of another resource may well read as a namespace.
    have hignored := h.ignored .init
      ⟨key, .put, some (.ns ⟨"", []⟩), none⟩ rfl hnone
    rw [changePropagateEvent_eq, if_pos hpre,
      readAs_of_not_accepts hnone] at hignored
    cases hignored
  · intro h
    refine ⟨?_, ?_⟩
    · intro c dataChngEv k hkey hk
      subst hkey
      rw [changePropagateEvent_eq,
        if_pos (KeyKind.hasNamespacePrefix_of_accepts hk), readAs_of_accepts hk]
    · intro c dataChngEv hkey hnone
      subst hkey
      rcases h with hex | hpre
      · obtain ⟨k, hk⟩ := hex
        rw [hnone k] at hk
        cases hk
      · rw [changePropagateEvent_eq, hpre]
        rfl

theorem read_eq_of_accepts (h : k.accepts key = true) (k' : KeyKind)
    (obj : Object) : k'.read (key, obj) =
      if k'.accepts key = true then (k'.kind.getValue obj).toList else [] := by
  have heq : readAs key = k' ↔ k'.accepts key = true := by
    rw [readAs_of_accepts h]
    constructor
    · rintro rfl
      exact h
    · exact KeyKind.eq_of_accepts h
  simp only [KeyKind.read, heq]

theorem resyncClassified_iff (outer key : String) : ResyncClassified outer key ↔
      (∃ k, KeyKind.accepts k key = true) ∨ hasNamespacePrefix outer = false := by
  constructor
  · intro h
    by_contra hnot
    rw [not_or] at hnot
    have hnone : ∀ k, KeyKind.accepts k key = false := fun k =>
      Bool.eq_false_iff.mpr fun hk => hnot.1 ⟨k, hk⟩
    have hpre : hasNamespacePrefix outer = true := by simpa using hnot.2
    have hcontents := h [] [] [] [] (.ns ⟨"", []⟩) .ns
    simp only [contents_resyncParseEvent, List.nil_append,
      List.flatMap_cons, List.flatMap_nil, KeyKind.readGroup, hpre, if_true,
      KeyKind.read, readAs_of_not_accepts hnone, hnone] at hcontents
    cases hcontents
  · intro h before after items items' obj k
    simp only [contents_resyncParseEvent, List.flatMap_append,
      List.flatMap_cons, List.flatMap_nil, KeyKind.readGroup]
    rcases h with hex | hpre
    · obtain ⟨k', hk'⟩ := hex
      rw [read_eq_of_accepts hk']
      by_cases hpre : hasNamespacePrefix outer = true
      · simp [hpre]
      · simp [hpre]
    · simp [hpre]

/-- A key is processed as what it is exactly if some parser accepts it, or if
it does not get as far as the parsers. -/
theorem classified_iff (outer key : String) :
    Classified outer key ↔ (∃ k, KeyKind.accepts k key = true) ∨
      hasNamespacePrefix key = false ∧ hasNamespacePrefix outer = false := by
  rw [or_and_left, ← changeClassified_iff, ← resyncClassified_iff]
  constructor
  · exact fun h => ⟨h.change, h.resync⟩
  · exact fun h => ⟨parsingInverts, fun _ _ => KeyKind.eq_of_accepts, h.1, h.2⟩

/-- The change of a service is taken for a namespace. -/
theorem not_classified_of_service :
    ¬ Classified "k8s/namespace/" "k8s/namespace/default/service/web" := by
  intro h
  have hnone : ∀ k, KeyKind.accepts k "k8s/namespace/default/service/web" =
      false := by
    intro k
    cases k <;> decide +kernel
  have hignored := h.change.ignored .init
    ⟨_, .put, some (.ns ⟨"web", []⟩), none⟩ rfl hnone
  cases hignored

end ContivVPP.PolicyCache
