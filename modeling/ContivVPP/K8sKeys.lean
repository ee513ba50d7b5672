import ContivVPP.K8sModel
import ContivVPP.Texts

/-!
# Names and keys

Identifiers and keys are texts whose parts are separated by slashes.  The names
of Kubernetes objects are DNS names; they have no slashes, so the parts can be
read back.
-/

namespace ContivVPP.K8s

/-! ## Texts with slashes -/

def splitSlash (text : String) : List String :=
  (text.toList.splitOn '/').map String.ofList

def Slashless (text : String) : Prop := '/' ∉ text.toList

instance (text : String) : Decidable (Slashless text) :=
  inferInstanceAs (Decidable (_ ∉ _))

theorem splitSlash_intercalate {parts : List String} (hne : parts ≠ [])
    (h : ∀ part ∈ parts, Slashless part) :
    splitSlash ("/".intercalate parts) = parts := by
  have hslash : "/".toList = ['/'] := rfl
  rw [splitSlash, String.toList_intercalate, hslash,
    List.splitOn_intercalate _ (by simpa [Slashless] using h) (by simpa)]
  simp

theorem slash_inj_left {a a' b b' : String} (ha : Slashless a)
    (ha' : Slashless a') :
    a ++ "/" ++ b = a' ++ "/" ++ b' ↔ a = a' ∧ b = b' :=
  Texts.sep_inj_left rfl ha ha'

theorem slash_inj_right {a a' b b' : String} (hb : Slashless b)
    (hb' : Slashless b') :
    a ++ "/" ++ b = a' ++ "/" ++ b' ↔ a = a' ∧ b = b' :=
  Texts.sep_inj_right rfl hb hb'

/-! ## Names -/

def isNameChar (c : Char) : Bool :=
  c.isLower || c.isDigit || c == '-' || c == '.'

def ValidName (text : String) : Prop :=
  text ≠ "" ∧ text.toList.all isNameChar = true

instance (text : String) : Decidable (ValidName text) :=
  inferInstanceAs (Decidable (_ ∧ _))

theorem ValidName.slashless {text : String} (h : ValidName text) :
    Slashless text := by
  intro hmem
  have hslash := List.all_eq_true.mp h.2 '/' hmem
  exact absurd hslash (by decide)

variable {ns' name' : String}

theorem id_string_inj {ns name : String} (h : ValidName ns) (h' : ValidName ns') :
    ns ++ "/" ++ name = ns' ++ "/" ++ name' ↔ ns = ns' ∧ name = name' :=
  slash_inj_left h.slashless h'.slashless

theorem splitSlash_id {ns name : String} (hns : ValidName ns)
    (hname : ValidName name) :
    splitSlash (ns ++ "/" ++ name) = [ns, name] := by
  have hparts : ns ++ "/" ++ name = "/".intercalate [ns, name] := by
    simp [String.intercalate_cons_cons]
  rw [hparts, splitSlash_intercalate (by simp)]
  simp [hns.slashless, hname.slashless]

/-! ## Identifiers as texts -/

/-- The parts of an identifier: namespace and name.  The result is `none` if
an index is out of range. -/
def unstringID (text : String) : Option (String × String) :=
  match splitSlash text with
  | ns :: name :: _ => some (ns, name)
  | _ => none

def unstringPodID (pods : List String) : Option (List PodID) :=
  pods.mapM fun pod => (unstringID pod).map fun parts => ⟨parts.2, parts.1⟩

def unstringPolicyID (policies : List String) : Option (List PolicyID) :=
  policies.mapM fun policy =>
    (unstringID policy).map fun parts => ⟨parts.2, parts.1⟩

theorem unstringID_string {ns name : String} (hns : ValidName ns)
    (hname : ValidName name) :
    unstringID (ns ++ "/" ++ name) = some (ns, name) := by
  rw [unstringID, splitSlash_id hns hname]

theorem PodID.string_inj {id id' : PodID} (h : ValidName id.ns)
    (h' : ValidName id'.ns) : id.string = id'.string ↔ id = id' := by
  obtain ⟨name, ns⟩ := id
  obtain ⟨name', ns'⟩ := id'
  rw [PodID.mk.injEq, and_comm]
  exact id_string_inj h h'

theorem PodID.eq_of_string {id id' : PodID} (hns : ValidName id'.ns)
    (hname : ValidName id'.name) (h : id.string = id'.string) : id = id' := by
  have hcount : id.string.toList.count '/' = 1 := by
    have hns := List.count_eq_zero.mpr hns.slashless
    have hname := List.count_eq_zero.mpr hname.slashless
    rw [h]
    simp [PodID.string, hns, hname]
  have hslashless : Slashless id.ns := by
    rw [PodID.string] at hcount
    simp only [String.toList_append, List.count_append] at hcount
    have hslash : "/".toList.count '/' = 1 := rfl
    exact List.count_eq_zero.mp (by omega)
  obtain ⟨name, ns⟩ := id
  obtain ⟨name', ns'⟩ := id'
  obtain ⟨rfl, rfl⟩ := (slash_inj_left hslashless hns.slashless).mp h
  rfl

theorem unstringPodID_map {ids : List PodID}
    (h : ∀ id ∈ ids, ValidName id.ns ∧ ValidName id.name) :
    unstringPodID (ids.map PodID.string) = some ids := by
  induction ids with
  | nil => rfl
  | cons id ids ih =>
      have hid := h id List.mem_cons_self
      have hids := ih fun id' hid' => h id' (List.mem_cons_of_mem id hid')
      rw [unstringPodID] at hids ⊢
      rw [List.map_cons, List.mapM_cons, hids, PodID.string,
        unstringID_string hid.1 hid.2]
      rfl

structure Namespace where
  name : String
  label : List Label
  deriving DecidableEq, Repr

/-! ## Keys of the data store -/

def namespacePrefix : String := "k8s/namespace/"

def podKey (name ns : String) : String :=
  namespacePrefix ++ ns ++ "/pod/" ++ name

def policyKey (name ns : String) : String :=
  namespacePrefix ++ ns ++ "/policy/" ++ name

def namespaceKey (name : String) : String :=
  namespacePrefix ++ name

/-- `strings.HasPrefix(key, namespacemodel.KeyPrefix())`. -/
def hasNamespacePrefix (key : String) : Bool :=
  namespacePrefix.toList.isPrefixOf key.toList

/-- The common part of `ParsePolicyFromKey` and `ParsePodFromKey`: name and
namespace of an object of the kind. -/
def parseFromKey (kind key : String) : Except String (String × String) :=
  if hasNamespacePrefix key then
    match splitSlash (String.ofList
      (key.toList.drop namespacePrefix.toList.length)) with
    | [ns, kind', name] =>
        if kind' = kind then .ok (name, ns)
        else .error ("invalid format of the key " ++ key)
    | _ => .error ("invalid format of the key " ++ key)
  else .error ("invalid format of the key " ++ key)

def parsePolicyFromKey (key : String) : Except String (String × String) :=
  parseFromKey "policy" key

def parsePodFromKey (key : String) : Except String (String × String) :=
  parseFromKey "pod" key

def parseNamespaceFromKey (key : String) : Except String String :=
  if hasNamespacePrefix key then
    match splitSlash (String.ofList
      (key.toList.drop namespacePrefix.toList.length)) with
    | [ns] => .ok ns
    | _ => .error ("invalid format of the key " ++ key)
  else .error ("invalid format of the key " ++ key)

section Keys

variable {ns name : String}

@[simp] theorem hasNamespacePrefix_append (text : String) :
    hasNamespacePrefix (namespacePrefix ++ text) = true := by
  simp [hasNamespacePrefix]

theorem podKey_eq (name ns : String) :
    podKey name ns = namespacePrefix ++ "/".intercalate [ns, "pod", name] := by
  simp [podKey, String.intercalate_cons_cons, String.append_assoc,
    ← String.toList_inj]

theorem policyKey_eq (name ns : String) : policyKey name ns =
      namespacePrefix ++ "/".intercalate [ns, "policy", name] := by
  simp [policyKey, String.intercalate_cons_cons, String.append_assoc,
    ← String.toList_inj]

theorem parseFromKey_parts (hns : Slashless ns) (hname : Slashless name)
    (kind : String) {kind' : String} (hkind : Slashless kind') :
    parseFromKey kind
        (namespacePrefix ++ "/".intercalate [ns, kind', name]) =
      if kind' = kind then .ok (name, ns)
      else .error ("invalid format of the key " ++
        (namespacePrefix ++ "/".intercalate [ns, kind', name])) := by
  have hparts : splitSlash ("/".intercalate [ns, kind', name]) =
      [ns, kind', name] := by
    refine splitSlash_intercalate (by simp) ?_
    simp [hns, hname, hkind]
  rw [parseFromKey, hasNamespacePrefix_append, String.toList_append,
    List.drop_left, String.ofList_toList, hparts]
  rfl

theorem parsePodFromKey_podKey (hns : Slashless ns) (hname : Slashless name) :
    parsePodFromKey (podKey name ns) = .ok (name, ns) := by
  rw [parsePodFromKey, podKey_eq, parseFromKey_parts hns hname _ (by decide)]
  rfl

theorem parsePolicyFromKey_policyKey (hns : Slashless ns)
    (hname : Slashless name) :
    parsePolicyFromKey (policyKey name ns) = .ok (name, ns) := by
  rw [parsePolicyFromKey, policyKey_eq,
    parseFromKey_parts hns hname _ (by decide)]
  rfl

theorem key_inj_of_parse {key : String → String → String}
    {parse : String → Except String (String × String)}
    (h : parse (key name ns) = .ok (name, ns))
    (h' : parse (key name' ns') = .ok (name', ns')) :
    key name ns = key name' ns' ↔ ns = ns' ∧ name = name' := by
  constructor
  · intro hkey
    rw [hkey, h'] at h
    simp only [Except.ok.injEq, Prod.mk.injEq] at h
    exact ⟨h.2.symm, h.1.symm⟩
  · intro heq
    rw [heq.1, heq.2]

theorem policyKey_inj (hns : ValidName ns) (hname : ValidName name)
    (hns' : ValidName ns') (hname' : ValidName name') :
    policyKey name ns = policyKey name' ns' ↔ ns = ns' ∧ name = name' :=
  key_inj_of_parse (parsePolicyFromKey_policyKey hns.slashless hname.slashless)
    (parsePolicyFromKey_policyKey hns'.slashless hname'.slashless)

theorem podKey_inj (hns : ValidName ns) (hname : ValidName name)
    (hns' : ValidName ns') (hname' : ValidName name') :
    podKey name ns = podKey name' ns' ↔ ns = ns' ∧ name = name' :=
  key_inj_of_parse (parsePodFromKey_podKey hns.slashless hname.slashless)
    (parsePodFromKey_podKey hns'.slashless hname'.slashless)

theorem namespaceKey_inj :
    namespaceKey name = namespaceKey name' ↔ name = name' := by
  simp [namespaceKey, ← String.toList_inj]

theorem splitSlash_of_slashless (hname : Slashless name) :
    splitSlash name = [name] := by
  have hsingle : splitSlash ("/".intercalate [name]) = [name] :=
    splitSlash_intercalate (by simp) (by simpa using hname)
  simpa using hsingle

theorem parseNamespaceFromKey_namespaceKey (hname : Slashless name) :
    parseNamespaceFromKey (namespaceKey name) = .ok name := by
  rw [parseNamespaceFromKey, namespaceKey, hasNamespacePrefix_append,
    String.toList_append, List.drop_left, String.ofList_toList,
    splitSlash_of_slashless hname]
  rfl

end Keys

end ContivVPP.K8s
