import Mathlib.Data.List.Sort
import Mathlib.Data.Nat.Digits.Defs
import ContivVPP.GoMap
import ContivVPP.Texts

/-!
# Allocation of node IDs

Every node of the cluster gets a number of its own.  An allocated number is an
entry in etcd; a node looks for the entry with its service label, and if there
is none, it lists all entries, chooses the least number that is free, and
writes an entry for it if the key does not exist.

Each operation on etcd is atomic, but others may come between them.  So a
cluster is the content of etcd together with the state of each allocator,
which includes the operation that its call in progress will do next.
-/

namespace ContivVPP.NodeID

open GoMap

/-! ## Keys -/

def allocatedIDsKeyPrefix : String := "allocatedIDs/"

def maxAttempts : ℕ := 10

def errInvalidKey : String := "invalid key for nodeID"

def errUnableToAllocateID : String :=
  "unable to allocate unique id for node (max attempt limit reached)"

def splitSign : List Char → Bool × List Char
  | '-' :: digits => (true, digits)
  | '+' :: digits => (false, digits)
  | digits => (false, digits)

/-- `strconv.Atoi`: decimal digits after an optional sign, for 64 bits. -/
def atoi (text : String) : Except String ℤ :=
  let (negative, digits) := splitSign text.toList
  if digits = [] ∨ ¬ digits.all Char.isDigit then
    .error ("strconv.Atoi: parsing " ++ text ++ ": invalid syntax")
  else
    let magnitude : ℤ := Nat.ofDigitChars 10 digits 0
    let value := if negative then -magnitude else magnitude
    if -2 ^ 63 ≤ value ∧ value < 2 ^ 63 then .ok value
    else .error ("strconv.Atoi: parsing " ++ text ++ ": value out of range")

def createKey (index : UInt32) : String :=
  allocatedIDsKeyPrefix ++ index.toNat.repr

def extractIndexFromKey (key : String) : Except String ℤ :=
  if allocatedIDsKeyPrefix.toList.isPrefixOf key.toList then
    atoi (String.ofList (key.toList.drop allocatedIDsKeyPrefix.toList.length))
  else .error errInvalidKey

def findFirstAvailableIndex (ids : List ℤ) : ℤ :=
  go 1 ids
where
  go (res : ℤ) : List ℤ → ℤ
    | [] => res
    | v :: vs => if res = v then go (res + 1) vs else res

/-! ## Allocators -/

structure Identifier where
  name : String
  id : UInt32
  deriving DecidableEq, Repr

abbrev Store := AList fun _ : String => Identifier

/-- The operation on etcd that comes next in the call in progress, with the
local variables of the loop. -/
inductive PC where
  | idle
  | findExistingEntry
  | listAllIDs (attempts : ℕ)
  | writeIfNotExists (attempts : ℕ) (ids : List ℤ)
  | delete
  deriving DecidableEq, Repr

structure IDAllocator where
  allocated : Bool
  ID : UInt32
  pc : PC
  returned : Option (Except String UInt8)

def newIDAllocator : IDAllocator := ⟨false, 0, .idle, none⟩

inductive Reply where
  | failed (err : String)
  | done (order : RangeOrder (String × Identifier))

def getID (a : IDAllocator) : IDAllocator :=
  if a.pc = .idle then
    if a.allocated then { a with returned := some (.ok a.ID.toUInt8) }
    else { a with pc := .findExistingEntry }
  else a

def releaseID (a : IDAllocator) : IDAllocator :=
  if a.pc = .idle ∧ a.allocated = true then { a with pc := .delete } else a

def findExistingEntry (serviceLabel : String)
    (entries : List (String × Identifier)) : Option Identifier :=
  (entries.map Prod.snd).find? fun item => item.name = serviceLabel

def listAllIDs (keys : List String) : Except String (List ℤ) :=
  keys.mapM extractIndexFromKey

def toUInt32 (index : ℤ) : UInt32 :=
  UInt32.ofNat (index % 2 ^ 32).toNat

def fail (a : IDAllocator) (err : String) : IDAllocator :=
  { a with pc := .idle, returned := some (.error err) }

def succeed (id : UInt32) : IDAllocator :=
  ⟨true, id, .idle, some (.ok id.toUInt8)⟩

def proceed (serviceLabel : String) (etcd : Store) (a : IDAllocator)
    (reply : Reply) : Store × IDAllocator :=
  match a.pc, reply with
  | .idle, _ => (etcd, a)
  | .delete, .failed _ => (etcd, { a with pc := .idle })
  | .delete, .done _ =>
      (etcd.erase (createKey a.ID), { a with allocated := false, pc := .idle })
  | _, .failed err => (etcd, fail a err)
  | .findExistingEntry, .done order =>
      match findExistingEntry serviceLabel (range order etcd) with
      | some entry => (etcd, succeed entry.id)
      | none => (etcd, { a with pc := .listAllIDs 0 })
  | .listAllIDs attempts, .done order =>
      match listAllIDs ((range order etcd).map Prod.fst) with
      | .error err => (etcd, fail a err)
      | .ok ids =>
          let ids := ids.mergeSort (· ≤ ·)
          (etcd, { a with
            ID := toUInt32 (findFirstAvailableIndex ids)
            pc := .writeIfNotExists (attempts + 1) ids })
  | .writeIfNotExists attempts _, .done _ =>
      match etcd.lookup (createKey a.ID) with
      | none =>
          (etcd.insert (createKey a.ID) ⟨serviceLabel, a.ID⟩, succeed a.ID)
      | some _ =>
          if attempts > maxAttempts then (etcd, fail a errUnableToAllocateID)
          else (etcd, { a with pc := .listAllIDs attempts })

/-! ## Clusters -/

structure Cluster (ν : Type*) where
  etcd : Store
  node : ν → IDAllocator

inductive Action (ν : Type*) where
  | getID (n : ν)
  | releaseID (n : ν)
  | proceed (n : ν) (reply : Reply)
  | crash (n : ν)

section Cluster

variable {ν : Type*} [DecidableEq ν]

def Cluster.set (c : Cluster ν) (n : ν) (a : IDAllocator) : Cluster ν :=
  { c with node := Function.update c.node n a }

def step (label : ν → String) (c : Cluster ν) : Action ν → Cluster ν
  | .getID n => c.set n (getID (c.node n))
  | .releaseID n => c.set n (releaseID (c.node n))
  | .proceed n reply =>
      let res := proceed (label n) c.etcd (c.node n) reply
      Cluster.set ⟨res.1, c.node⟩ n res.2
  | .crash n => c.set n newIDAllocator

def init : Cluster ν := ⟨∅, fun _ => newIDAllocator⟩

def run (label : ν → String) (actions : List (Action ν)) : Cluster ν :=
  actions.foldl (step label) init

end Cluster

/-! ## Keys and indexes -/

theorem splitSign_of_digits {digits : List Char}
    (h : digits.all Char.isDigit = true) :
    splitSign digits = (false, digits) := by
  unfold splitSign
  split
  · simp [Char.isDigit] at h
  · simp [Char.isDigit] at h
  · rfl

theorem atoi_repr {n : ℕ} (hn : n < 2 ^ 63) : atoi n.repr = .ok n := by
  have hdigits : (Nat.toDigits 10 n).all Char.isDigit = true :=
    List.all_eq_true.mpr fun c hc =>
      Nat.isDigit_of_mem_toDigits (by decide) (by decide) hc
  have hvalue : Nat.ofDigitChars 10 (Nat.toDigits 10 n) 0 = n :=
    Nat.ofDigitChars_toDigits (by decide) (by decide)
  have hrange : -2 ^ 63 ≤ (n : ℤ) ∧ (n : ℤ) < 2 ^ 63 := by omega
  simp only [atoi, Nat.toList_repr, splitSign_of_digits hdigits, hvalue,
    hdigits, Nat.toDigits_ne_nil, not_true_eq_false, or_self, if_false,
    Bool.false_eq_true, if_pos hrange]

theorem createKey_inj {a b : UInt32} : createKey a = createKey b ↔ a = b := by
  rw [createKey, createKey, ← UInt32.toNat_inj, ← Texts.repr_inj,
    ← String.toList_inj, String.toList_append, String.toList_append,
    List.append_cancel_left_eq, String.toList_inj]

theorem extractIndexFromKey_createKey (index : UInt32) :
    extractIndexFromKey (createKey index) = .ok index.toNat := by
  have hlt : index.toNat < 2 ^ 63 := by
    have := index.toNat_lt
    omega
  have hpre : allocatedIDsKeyPrefix.toList.isPrefixOf
      (createKey index).toList = true := by
    rw [List.isPrefixOf_iff_prefix, createKey, String.toList_append]
    exact List.prefix_append _ _
  rw [extractIndexFromKey, if_pos hpre, createKey, String.toList_append,
    List.drop_left, String.ofList_toList]
  exact atoi_repr hlt

structure LeastAbsent (ids : List ℤ) (index : ℤ) : Prop where
  positive : 1 ≤ index
  absent : index ∉ ids
  least : ∀ k, 1 ≤ k → k < index → k ∈ ids

theorem go_leastAbsent_from {ids : List ℤ} (hsorted : ids.Pairwise (· < ·))
    {res : ℤ}
    (hge : ∀ v ∈ ids, res ≤ v) :
    res ≤ findFirstAvailableIndex.go res ids ∧
      findFirstAvailableIndex.go res ids ≤ res + ids.length ∧
      findFirstAvailableIndex.go res ids ∉ ids ∧
      ∀ k, res ≤ k → k < findFirstAvailableIndex.go res ids → k ∈ ids := by
  induction ids generalizing res with
  | nil =>
      refine ⟨le_rfl, by simp [findFirstAvailableIndex.go], by simp, ?_⟩
      intro k hk hlt
      exact absurd hlt (not_lt.mpr hk)
  | cons v vs ih =>
      rw [List.pairwise_cons] at hsorted
      rw [findFirstAvailableIndex.go]
      by_cases hv : res = v
      · rw [if_pos hv]
        have hge' : ∀ w ∈ vs, res + 1 ≤ w := by
          intro w hw
          have := hsorted.1 w hw
          omega
        obtain ⟨hle, hlen, habsent, hleast⟩ := ih hsorted.2 hge'
        refine ⟨by omega, ?_, ?_, ?_⟩
        · rw [List.length_cons]
          push_cast
          omega
        · rw [List.mem_cons, not_or]
          exact ⟨by omega, habsent⟩
        · intro k hk hlt
          rcases eq_or_lt_of_le hk with heq | hgt
          · exact List.mem_cons.mpr (Or.inl (heq ▸ hv))
          · exact List.mem_cons_of_mem v (hleast k (by omega) hlt)
      · rw [if_neg hv]
        have hlt : res < v := lt_of_le_of_ne (hge v List.mem_cons_self) hv
        refine ⟨le_rfl, by rw [List.length_cons]; omega, ?_, ?_⟩
        · rw [List.mem_cons, not_or]
          refine ⟨hv, fun hmem => ?_⟩
          have := hsorted.1 res hmem
          omega
        · intro k hk hlt'
          omega

theorem findFirstAvailableIndex_spec {ids : List ℤ}
    (hsorted : ids.Pairwise (· < ·)) (hpos : ∀ v ∈ ids, 1 ≤ v) :
    LeastAbsent ids (findFirstAvailableIndex ids) ∧
      findFirstAvailableIndex ids ≤ 1 + ids.length := by
  obtain ⟨hle, hlen, habsent, hleast⟩ := go_leastAbsent_from hsorted hpos
  exact ⟨⟨hle, habsent, hleast⟩, hlen⟩

end ContivVPP.NodeID
