import ContivVPP.NodeIDAllocator

/-!
# Runs of the node ID allocators

The invariant ties the entries of etcd to the allocators: an entry belongs to
one node, an allocator that has an ID has its entry, and an allocator that is
about to write has none.  Whatever the interleaving, and wherever a node
crashes, it is kept by each operation.
-/

namespace ContivVPP.NodeID

open GoMap

variable {ν : Type*} {label : ν → String} {c : Cluster ν} {n : ν}

def PC.Proposing : PC → Prop
  | .listAllIDs _ => True
  | .writeIfNotExists _ _ => True
  | _ => False

structure Inv (label : ν → String) (c : Cluster ν) : Prop where
  keyed : ∀ key e, c.etcd.lookup key = some e → key = createKey e.id
  owner : ∀ key e, c.etcd.lookup key = some e → ∃ n, e.name = label n
  single : ∀ key key' e e', c.etcd.lookup key = some e →
    c.etcd.lookup key' = some e' → e.name = e'.name → key = key'
  owns : ∀ n, (c.node n).allocated = true →
    c.etcd.lookup (createKey (c.node n).ID) = some ⟨label n, (c.node n).ID⟩
  waiting : ∀ n, (c.node n).pc ≠ .idle → (c.node n).pc ≠ .delete →
    (c.node n).allocated = false
  proposing : ∀ n, (c.node n).pc.Proposing →
    ∀ key e, c.etcd.lookup key = some e → e.name ≠ label n
  deleting : ∀ n, (c.node n).pc = .delete → (c.node n).allocated = true

theorem inv_init : Inv label (init : Cluster ν) where
  keyed key e h := by simp [init] at h
  owner key e h := by simp [init] at h
  single key key' e e' h := by simp [init] at h
  owns n h := by simp [init, newIDAllocator] at h
  waiting n h := by simp [init, newIDAllocator]
  proposing n h := by simp [init, newIDAllocator, PC.Proposing] at h
  deleting n h := by simp [init, newIDAllocator] at h

structure Fits (label : ν → String) (etcd : Store) (n : ν)
    (a : IDAllocator) : Prop where
  owns : a.allocated = true → etcd.lookup (createKey a.ID) = some ⟨label n, a.ID⟩
  waiting : a.pc ≠ .idle → a.pc ≠ .delete → a.allocated = false
  proposing : a.pc.Proposing →
    ∀ key e, etcd.lookup key = some e → e.name ≠ label n
  deleting : a.pc = .delete → a.allocated = true

theorem Inv.fits (h : Inv label c) (n : ν) : Fits label c.etcd n (c.node n) :=
  ⟨h.owns n, h.waiting n, h.proposing n, h.deleting n⟩

variable {etcd : Store} {a : IDAllocator}

theorem fits_idle (hpc : a.pc = .idle) (howns : a.allocated = true →
      etcd.lookup (createKey a.ID) = some ⟨label n, a.ID⟩) :
    Fits label etcd n a where
  owns := howns
  waiting hne := absurd hpc hne
  proposing hprop := by
    rw [hpc] at hprop
    exact hprop.elim
  deleting hdel := by
    rw [hpc] at hdel
    cases hdel

theorem Inv.of_fits {node : ν → IDAllocator}
    (hkeyed : ∀ key e, etcd.lookup key = some e → key = createKey e.id)
    (howner : ∀ key e, etcd.lookup key = some e → ∃ n, e.name = label n)
    (hsingle : ∀ key key' e e', etcd.lookup key = some e →
      etcd.lookup key' = some e' → e.name = e'.name → key = key')
    (hfits : ∀ n, Fits label etcd n (node n)) :
    Inv label ⟨etcd, node⟩ :=
  ⟨hkeyed, howner, hsingle, fun n => (hfits n).owns,
    fun n => (hfits n).waiting, fun n => (hfits n).proposing,
    fun n => (hfits n).deleting⟩

variable {id : UInt32}

section Step

variable [DecidableEq ν]

@[simp] theorem Cluster.etcd_set (a : IDAllocator) :
    (c.set n a).etcd = c.etcd := rfl

@[simp] theorem Cluster.node_set_self (a : IDAllocator) :
    (c.set n a).node n = a := by
  simp [Cluster.set]

theorem Cluster.node_set_of_ne {m : ν} (hm : m ≠ n) (a : IDAllocator) :
    (c.set n a).node m = c.node m := by
  simp [Cluster.set, hm]

theorem Inv.set (h : Inv label c) (hfits : Fits label c.etcd n a) :
    Inv label (c.set n a) := by
  refine Inv.of_fits h.keyed h.owner h.single fun m => ?_
  by_cases hm : m = n
  · subst hm
    rw [Function.update_self]
    exact hfits
  · rw [Function.update_of_ne hm]
    exact h.fits m

theorem Inv.write (h : Inv label c) (hlabel : Function.Injective label)
    (hpc : (c.node n).pc.Proposing)
    (hfree : c.etcd.lookup (createKey id) = none) :
    Inv label (Cluster.set ⟨c.etcd.insert (createKey id) ⟨label n, id⟩,
      c.node⟩ n (succeed id)) := by
  have hlookup : ∀ key e, (c.etcd.insert (createKey id)
      ⟨label n, id⟩).lookup key = some e ↔
      (key = createKey id ∧ e = ⟨label n, id⟩) ∨ c.etcd.lookup key = some e := by
    intro key e
    by_cases hkey : key = createKey id
    · subst hkey
      rw [AList.lookup_insert, hfree]
      simp [eq_comm]
    · rw [AList.lookup_insert_ne hkey]
      simp [hkey]
  have hother : ∀ key e, c.etcd.lookup key = some e → e.name ≠ label n :=
    h.proposing n hpc
  refine Inv.of_fits ?_ ?_ ?_ fun m => ?_
  · intro key e he
    rcases (hlookup key e).mp he with ⟨hkey, heq⟩ | hold
    · rw [hkey, heq]
    · exact h.keyed key e hold
  · intro key e he
    rcases (hlookup key e).mp he with ⟨_, heq⟩ | hold
    · exact ⟨n, by rw [heq]⟩
    · exact h.owner key e hold
  · intro key key' e e' he he' hname
    rcases (hlookup key e).mp he with ⟨hkey, heq⟩ | hold <;>
      rcases (hlookup key' e').mp he' with ⟨hkey', heq'⟩ | hold'
    · rw [hkey, hkey']
    · exact absurd (by rw [← hname, heq]) (hother key' e' hold')
    · exact absurd (by rw [hname, heq']) (hother key e hold)
    · exact h.single key key' e e' hold hold' hname
  · by_cases hm : m = n
    · subst hm
      rw [Function.update_self]
      exact fits_idle rfl fun _ => AList.lookup_insert c.etcd
    · rw [Function.update_of_ne hm]
      refine ⟨fun halloc => ?_, h.waiting m, fun hprop key e he => ?_,
        h.deleting m⟩
      · exact (hlookup _ _).mpr (Or.inr (h.owns m halloc))
      · rcases (hlookup key e).mp he with ⟨_, heq⟩ | hold
        · rw [heq]
          exact fun hname => hm (hlabel hname).symm
        · exact h.proposing m hprop key e hold

theorem Inv.delete (h : Inv label c) (hlabel : Function.Injective label)
    (hpc : (c.node n).pc = .delete) :
    Inv label (Cluster.set ⟨c.etcd.erase (createKey (c.node n).ID), c.node⟩ n
      { c.node n with allocated := false, pc := .idle }) := by
  have hlookup : ∀ key e, (c.etcd.erase
      (createKey (c.node n).ID)).lookup key = some e →
      key ≠ createKey (c.node n).ID ∧ c.etcd.lookup key = some e := by
    intro key e he
    by_cases hkey : key = createKey (c.node n).ID
    · rw [hkey, AList.lookup_erase] at he
      cases he
    · rw [AList.lookup_erase_ne hkey] at he
      exact ⟨hkey, he⟩
  refine Inv.of_fits (fun key e he => h.keyed key e (hlookup key e he).2)
    (fun key e he => h.owner key e (hlookup key e he).2)
    (fun key key' e e' he he' => h.single key key' e e' (hlookup key e he).2
      (hlookup key' e' he').2) fun m => ?_
  by_cases hm : m = n
  · subst hm
    rw [Function.update_self]
    exact fits_idle rfl fun halloc => absurd halloc (by simp)
  · rw [Function.update_of_ne hm]
    refine ⟨fun halloc => ?_, h.waiting m,
      fun hprop key e he => h.proposing m hprop key e (hlookup key e he).2,
      h.deleting m⟩
    have hown := h.owns n (h.deleting n hpc)
    have hown' := h.owns m halloc
    have hkey : createKey (c.node m).ID ≠ createKey (c.node n).ID := by
      intro heq
      rw [heq, hown, Option.some.injEq, Identifier.mk.injEq] at hown'
      exact hm (hlabel hown'.1).symm
    rw [AList.lookup_erase_ne hkey]
    exact hown'

end Step

/-! ## The operations -/

theorem findExistingEntry_eq_some {order : RangeOrder (String × Identifier)}
    {text : String} {e : Identifier}
    (h : findExistingEntry text (range order etcd) = some e) :
    e.name = text ∧ ∃ key, etcd.lookup key = some e := by
  have hname := List.find?_some h
  obtain ⟨entry, hmem, heq⟩ := List.mem_map.mp (List.mem_of_find?_eq_some h)
  refine ⟨by simpa using hname, entry.1, ?_⟩
  rw [← heq]
  exact mem_range.mp hmem

theorem findExistingEntry_eq_none {order : RangeOrder (String × Identifier)}
    {text : String} :
    findExistingEntry text (range order etcd) = none ↔
      ∀ key e, etcd.lookup key = some e → e.name ≠ text := by
  unfold findExistingEntry
  rw [List.find?_eq_none]
  constructor
  · intro h key e he
    simpa using h e (List.mem_map.mpr ⟨(key, e), mem_range.mpr he, rfl⟩)
  · intro h e he
    obtain ⟨⟨key, e'⟩, hmem, rfl⟩ := List.mem_map.mp he
    simpa using h key e' (mem_range.mp hmem)

theorem Inv.findExistingEntry_eq (h : Inv label c)
    (hentry : c.etcd.lookup (createKey id) = some ⟨label n, id⟩)
    (order : RangeOrder (String × Identifier)) :
    findExistingEntry (label n) (range order c.etcd) = some ⟨label n, id⟩ := by
  cases hfind : findExistingEntry (label n) (range order c.etcd) with
  | none =>
      exact absurd rfl (findExistingEntry_eq_none.mp hfind _ _ hentry)
  | some e =>
      obtain ⟨hname, key, hkey⟩ := findExistingEntry_eq_some hfind
      rw [h.single _ _ _ _ hkey hentry hname, hentry] at hkey
      exact hkey.symm

theorem getID_cases (a : IDAllocator) : getID a = a ∨
    (getID a).pc = .idle ∨ (getID a).pc = .findExistingEntry := by
  unfold getID
  split_ifs with hpc
  · exact Or.inr (Or.inl hpc)
  · exact Or.inr (Or.inr rfl)
  · exact Or.inl rfl

theorem releaseID_cases (a : IDAllocator) :
    releaseID a = a ∨ (releaseID a).pc = .delete := by
  unfold releaseID
  split_ifs
  · exact Or.inr rfl
  · exact Or.inl rfl

inductive Proceeds (text : String) (etcd : Store) (a : IDAllocator) :
    Store × IDAllocator → Prop where
  | stop (a' : IDAllocator) (hpc : a'.pc = .idle)
      (halloc : a'.allocated = a.allocated) (hid : a'.ID = a.ID) :
      Proceeds text etcd a (etcd, a')
  | delete (hpc : a.pc = .delete) :
      Proceeds text etcd a (etcd.erase (createKey a.ID),
        { a with allocated := false, pc := .idle })
  | found (hpc : a.pc = .findExistingEntry)
      (order : RangeOrder (String × Identifier)) (e : Identifier)
      (hfind : findExistingEntry text (range order etcd) = some e) :
      Proceeds text etcd a (etcd, succeed e.id)
  | notFound (hpc : a.pc = .findExistingEntry)
      (order : RangeOrder (String × Identifier))
      (hfind : findExistingEntry text (range order etcd) = none) :
      Proceeds text etcd a (etcd, { a with pc := .listAllIDs 0 })
  | listed (attempts : ℕ) (hpc : a.pc = .listAllIDs attempts)
      (order : RangeOrder (String × Identifier)) (ids : List ℤ)
      (hlist : listAllIDs ((range order etcd).map Prod.fst) = .ok ids) :
      Proceeds text etcd a (etcd, { a with
        ID := toUInt32 (findFirstAvailableIndex (ids.mergeSort (· ≤ ·)))
        pc := .writeIfNotExists (attempts + 1) (ids.mergeSort (· ≤ ·)) })
  | written (attempts : ℕ) (ids : List ℤ)
      (hpc : a.pc = .writeIfNotExists attempts ids)
      (hfree : etcd.lookup (createKey a.ID) = none) :
      Proceeds text etcd a (etcd.insert (createKey a.ID) ⟨text, a.ID⟩,
        succeed a.ID)
  | retry (attempts : ℕ) (ids : List ℤ)
      (hpc : a.pc = .writeIfNotExists attempts ids) :
      Proceeds text etcd a (etcd, { a with pc := .listAllIDs attempts })

theorem proceeds (text : String) (etcd : Store) (a : IDAllocator)
    (reply : Reply) : Proceeds text etcd a (proceed text etcd a reply) := by
  have hfail : ∀ err, Proceeds text etcd a (etcd, fail a err) :=
    fun err => .stop (fail a err) rfl rfl rfl
  unfold proceed
  split
  · next hpc => exact .stop a hpc rfl rfl
  · exact .stop _ rfl rfl rfl
  · next hpc => exact .delete hpc
  · exact hfail _
  · next order hpc =>
      split
      · next e hfind => exact .found hpc order e hfind
      · next hfind => exact .notFound hpc order hfind
  · next attempts order hpc =>
      split
      · exact hfail _
      · next ids hlist => exact .listed attempts hpc order ids hlist
  · next attempts ids order hpc =>
      split
      · next hfree => exact .written attempts ids hpc hfree
      · split
        · exact hfail _
        · exact .retry attempts ids hpc

variable [DecidableEq ν]

theorem Inv.proceed (h : Inv label c) (hlabel : Function.Injective label)
    {res : Store × IDAllocator}
    (hres : Proceeds (label n) c.etcd (c.node n) res) :
    Inv label (Cluster.set ⟨res.1, c.node⟩ n res.2) := by
  have hwaiting : ∀ {pc}, (c.node n).pc = pc → pc ≠ .idle → pc ≠ .delete →
      (c.node n).allocated = false := by
    intro pc hpc hidle hdel
    exact h.waiting n (hpc ▸ hidle) (hpc ▸ hdel)
  cases hres with
  | stop a' hpc halloc hid =>
      refine h.set (fits_idle hpc fun htrue => ?_)
      rw [hid]
      exact h.owns n (halloc ▸ htrue)
  | delete hpc => exact h.delete hlabel hpc
  | found hpc order e hfind =>
      obtain ⟨hname, key, hkey⟩ := findExistingEntry_eq_some hfind
      refine h.set (fits_idle rfl fun _ => ?_)
      change c.etcd.lookup (createKey e.id) = some ⟨label n, e.id⟩
      rw [← h.keyed key e hkey, hkey, ← hname]
  | notFound hpc order hfind =>
      have halloc := hwaiting hpc (by simp) (by simp)
      exact h.set ⟨fun htrue => absurd htrue (by simp [halloc]),
        fun _ _ => halloc, fun _ => findExistingEntry_eq_none.mp hfind,
        fun hdel => by cases hdel⟩
  | listed attempts hpc order ids hlist =>
      have halloc := hwaiting hpc (by simp) (by simp)
      exact h.set ⟨fun htrue => absurd htrue (by simp [halloc]),
        fun _ _ => halloc, fun _ => h.proposing n (by rw [hpc]; trivial),
        fun hdel => by cases hdel⟩
  | written attempts ids hpc hfree =>
      exact h.write hlabel (by rw [hpc]; trivial) hfree
  | retry attempts ids hpc =>
      have halloc := hwaiting hpc (by simp) (by simp)
      exact h.set ⟨fun htrue => absurd htrue (by simp [halloc]),
        fun _ _ => halloc, fun _ => h.proposing n (by rw [hpc]; trivial),
        fun hdel => by cases hdel⟩

theorem Inv.step (h : Inv label c) (hlabel : Function.Injective label)
    (action : Action ν) : Inv label (NodeID.step label c action) := by
  cases action with
  | getID n =>
      refine h.set ?_
      unfold NodeID.getID
      split_ifs with hpc halloc
      · exact fits_idle hpc (h.owns n)
      · exact ⟨fun htrue => absurd htrue halloc,
          fun _ _ => by simpa using halloc, fun hprop => hprop.elim,
          fun hdel => by cases hdel⟩
      · exact h.fits n
  | releaseID n =>
      refine h.set ?_
      unfold NodeID.releaseID
      split_ifs with hpc
      · exact ⟨h.owns n, fun _ hdel => absurd rfl hdel,
          fun hprop => hprop.elim, fun _ => hpc.2⟩
      · exact h.fits n
  | proceed n reply => exact h.proceed hlabel (proceeds _ _ _ reply)
  | crash n =>
      exact h.set (fits_idle rfl fun htrue => by cases htrue)

theorem inv_run (hlabel : Function.Injective label)
    (actions : List (Action ν)) : Inv label (run label actions) :=
  List.foldlRecOn actions (NodeID.step label) inv_init
    fun _ h action _ => h.step hlabel action

/-! ## Proposals -/

def listing (order : RangeOrder (String × Identifier)) (etcd : Store) : List ℤ :=
  (range order etcd).map fun e => (e.2.id.toNat : ℤ)

section Listing

variable {order : RangeOrder (String × Identifier)}

omit [DecidableEq ν] in
theorem Inv.listAllIDs_eq (h : Inv label c)
    (order : RangeOrder (String × Identifier)) :
    listAllIDs ((range order c.etcd).map Prod.fst) =
      .ok (listing order c.etcd) := by
  have hkeys : ∀ e ∈ range order c.etcd,
      extractIndexFromKey e.1 = .ok (e.2.id.toNat : ℤ) := by
    intro e he
    rw [h.keyed e.1 e.2 (mem_range.mp he), extractIndexFromKey_createKey]
  unfold listAllIDs listing
  generalize range order c.etcd = entries at hkeys ⊢
  induction entries with
  | nil => rfl
  | cons e es ih =>
      rw [List.map_cons, List.mapM_cons, hkeys e List.mem_cons_self,
        ih fun e' he' => hkeys e' (List.mem_cons_of_mem e he')]
      rfl

omit [DecidableEq ν] in
theorem Inv.nodup_listing (h : Inv label c) : (listing order c.etcd).Nodup := by
  have hkeys := range_keys_nodup order c.etcd
  rw [List.Nodup, List.pairwise_map] at hkeys
  rw [listing, List.Nodup, List.pairwise_map]
  refine (List.Pairwise.and_mem.mp hkeys).imp fun {e e'} hne heq => hne.2.2 ?_
  have hid : e.2.id = e'.2.id :=
    UInt32.toNat_inj.mp (Int.ofNat_inj.mp heq)
  rw [h.keyed _ _ (mem_range.mp hne.1), h.keyed _ _ (mem_range.mp hne.2.1), hid]

omit [DecidableEq ν] in
theorem Inv.sorted_listing (h : Inv label c)
    (order : RangeOrder (String × Identifier)) :
    ((listing order c.etcd).mergeSort (· ≤ ·)).Pairwise (· < ·) := by
  have hle : ((listing order c.etcd).mergeSort (· ≤ ·)).Pairwise (· ≤ ·) := by
    simpa using @List.pairwise_mergeSort _ (fun a b : ℤ => a ≤ b)
      (by simp; omega) (by simp; omega) (listing order c.etcd)
  have hne := (List.mergeSort_perm (listing order c.etcd)
    (· ≤ ·)).nodup_iff.mpr h.nodup_listing
  exact (hle.and hne).imp fun hab => lt_of_le_of_ne hab.1 hab.2

theorem Inv.length_listing [Fintype ν] (h : Inv label c)
    (hprop : (c.node n).pc.Proposing) :
    (listing order c.etcd).length + 1 ≤ Fintype.card ν := by
  have hnames : ((range order c.etcd).map fun e => e.2.name).Nodup := by
    have hkeys := range_keys_nodup order c.etcd
    rw [List.Nodup, List.pairwise_map] at hkeys ⊢
    refine (List.Pairwise.and_mem.mp hkeys).imp fun {e e'} hne heq => ?_
    exact hne.2.2 (h.single _ _ _ _ (mem_range.mp hne.1)
      (mem_range.mp hne.2.1) heq)
  have hsub : ((range order c.etcd).map fun e => e.2.name).toFinset ⊆
      (Finset.univ.erase n).image label := by
    intro name hname
    obtain ⟨e, he, rfl⟩ := List.mem_map.mp (List.mem_toFinset.mp hname)
    obtain ⟨m, hm⟩ := h.owner _ _ (mem_range.mp he)
    refine Finset.mem_image.mpr ⟨m, Finset.mem_erase.mpr ⟨fun heq => ?_,
      Finset.mem_univ m⟩, hm.symm⟩
    exact h.proposing n hprop _ _ (mem_range.mp he) (heq ▸ hm)
  have hcard := (Finset.card_le_card hsub).trans Finset.card_image_le
  rw [List.toFinset_card_of_nodup hnames, List.length_map,
    Finset.card_erase_of_mem (Finset.mem_univ n), Finset.card_univ] at hcard
  have hpos : 0 < Fintype.card ν := Fintype.card_pos_iff.mpr ⟨n⟩
  rw [listing, List.length_map]
  omega

end Listing

/-- The IDs are at least one and at most the number of nodes, and a proposal is
the least positive number that is not in its listing. -/
structure Bounded (N : ℕ) (c : Cluster ν) : Prop where
  ids : ∀ key e, c.etcd.lookup key = some e → 1 ≤ e.id.toNat ∧ e.id.toNat ≤ N
  proposal : ∀ n attempts ids, (c.node n).pc = .writeIfNotExists attempts ids →
    LeastAbsent ids (c.node n).ID.toNat ∧ (c.node n).ID.toNat ≤ N

theorem toNat_toUInt32 {index : ℤ} (hpos : 0 ≤ index)
    (hlt : index < 2 ^ 32) : ((toUInt32 index).toNat : ℤ) = index := by
  rw [toUInt32, Int.emod_eq_of_lt hpos hlt, UInt32.toNat_ofNat_of_lt' (by
    rw [UInt32.size]
    omega)]
  omega

theorem leastAbsent_listing [Fintype ν] (h : Inv label c)
    (hprop : (c.node n).pc.Proposing)
    (hsmall : Fintype.card ν < 2 ^ 32)
    (hpos : ∀ key e, c.etcd.lookup key = some e → 1 ≤ e.id.toNat)
    (order : RangeOrder (String × Identifier)) :
    LeastAbsent ((listing order c.etcd).mergeSort (· ≤ ·))
        (toUInt32 (findFirstAvailableIndex
          ((listing order c.etcd).mergeSort (· ≤ ·)))).toNat ∧
      (toUInt32 (findFirstAvailableIndex
        ((listing order c.etcd).mergeSort (· ≤ ·)))).toNat ≤ Fintype.card ν := by
  have hperm := List.mergeSort_perm (listing order c.etcd) (· ≤ ·)
  have hge : ∀ v ∈ (listing order c.etcd).mergeSort (· ≤ ·), 1 ≤ v := by
    intro v hv
    obtain ⟨e, he, rfl⟩ := List.mem_map.mp (hperm.mem_iff.mp hv)
    exact_mod_cast hpos _ _ (mem_range.mp he)
  obtain ⟨hleast, hlen⟩ := findFirstAvailableIndex_spec
    (h.sorted_listing order) hge
  have hcard : (listing order c.etcd).length + 1 ≤ Fintype.card ν :=
    h.length_listing hprop
  rw [hperm.length_eq] at hlen
  have hnat : ((toUInt32 (findFirstAvailableIndex
      ((listing order c.etcd).mergeSort (· ≤ ·)))).toNat : ℤ) = _ :=
    toNat_toUInt32 (by have := hleast.positive; omega) (by omega)
  rw [hnat]
  exact ⟨hleast, by omega⟩

section Bounded

variable {N : ℕ}

theorem Bounded.set (h : Bounded N c) (hids : ∀ key e, etcd.lookup key = some e →
      1 ≤ e.id.toNat ∧ e.id.toNat ≤ N)
    (hpc : ∀ attempts ids, a.pc = .writeIfNotExists attempts ids →
      LeastAbsent ids a.ID.toNat ∧ a.ID.toNat ≤ N) :
    Bounded N (Cluster.set ⟨etcd, c.node⟩ n a) := by
  refine ⟨hids, fun m attempts ids hm => ?_⟩
  by_cases heq : m = n
  · subst heq
    rw [Cluster.node_set_self] at hm ⊢
    exact hpc attempts ids hm
  · rw [Cluster.node_set_of_ne heq] at hm ⊢
    exact h.proposal m attempts ids hm

theorem Bounded.proceed [Fintype ν] (h : Bounded (Fintype.card ν) c)
    (hinv : Inv label c) (hsmall : Fintype.card ν < 2 ^ 32)
    {res : Store × IDAllocator}
    (hres : Proceeds (label n) c.etcd (c.node n) res) :
    Bounded (Fintype.card ν) (Cluster.set ⟨res.1, c.node⟩ n res.2) := by
  cases hres with
  | stop a' hpc halloc hid =>
      refine h.set h.ids fun attempts ids hwrite => ?_
      rw [hpc] at hwrite
      cases hwrite
  | delete hpc =>
      refine h.set (fun key e he => ?_) fun attempts ids hwrite => by
        cases hwrite
      by_cases hkey : key = createKey (c.node n).ID
      · rw [hkey, AList.lookup_erase] at he
        cases he
      · rw [AList.lookup_erase_ne hkey] at he
        exact h.ids key e he
  | found hpc order e hfind =>
      exact h.set h.ids fun attempts ids hwrite => by cases hwrite
  | notFound hpc order hfind =>
      exact h.set h.ids fun attempts ids hwrite => by cases hwrite
  | listed attempts hpc order ids hlist =>
      rw [hinv.listAllIDs_eq order, Except.ok.injEq] at hlist
      subst hlist
      refine h.set h.ids fun attempts' ids' hwrite => ?_
      obtain ⟨_, rfl⟩ := PC.writeIfNotExists.inj hwrite
      exact leastAbsent_listing hinv (by rw [hpc]; trivial) hsmall
        (fun key e he => (h.ids key e he).1) order
  | written attempts ids hpc hfree =>
      refine h.set (fun key e he => ?_) fun attempts ids hwrite => by
        cases hwrite
      by_cases hkey : key = createKey (c.node n).ID
      · rw [hkey, AList.lookup_insert, Option.some.injEq] at he
        obtain ⟨hleast, hle⟩ := h.proposal n attempts ids hpc
        rw [← he]
        exact ⟨by exact_mod_cast hleast.positive, hle⟩
      · rw [AList.lookup_insert_ne hkey] at he
        exact h.ids key e he
  | retry attempts ids hpc =>
      exact h.set h.ids fun attempts ids hwrite => by cases hwrite

theorem Bounded.step [Fintype ν] (h : Bounded (Fintype.card ν) c)
    (hinv : Inv label c) (hsmall : Fintype.card ν < 2 ^ 32)
    (action : Action ν) :
    Bounded (Fintype.card ν) (NodeID.step label c action) := by
  cases action with
  | getID n =>
      refine h.set h.ids fun attempts ids hwrite => ?_
      rcases getID_cases (c.node n) with hsame | hpc | hpc
      · rw [hsame] at hwrite ⊢
        exact h.proposal n attempts ids hwrite
      · rw [hpc] at hwrite
        cases hwrite
      · rw [hpc] at hwrite
        cases hwrite
  | releaseID n =>
      refine h.set h.ids fun attempts ids hwrite => ?_
      rcases releaseID_cases (c.node n) with hsame | hpc
      · rw [hsame] at hwrite ⊢
        exact h.proposal n attempts ids hwrite
      · rw [hpc] at hwrite
        cases hwrite
  | proceed n reply => exact h.proceed hinv hsmall (proceeds _ _ _ reply)
  | crash n =>
      exact h.set h.ids fun attempts ids hwrite => by cases hwrite

theorem bounded_run [Fintype ν] (hlabel : Function.Injective label)
    (hsmall : Fintype.card ν < 2 ^ 32) (actions : List (Action ν)) :
    Bounded (Fintype.card ν) (run label actions) := by
  induction actions using List.reverseRecOn with
  | nil =>
      exact ⟨fun key e he => by simp [run, init] at he,
        fun n attempts ids hpc => by simp [run, init, newIDAllocator] at hpc⟩
  | append_singleton actions action ih =>
      rw [run, List.foldl_append, List.foldl_cons, List.foldl_nil]
      exact ih.step (inv_run hlabel actions) hsmall action

end Bounded

/-! ## Restarts -/

/-- The node has the entry for an ID, and is not about to delete it. -/
structure Holds (label : ν → String) (c : Cluster ν) (n : ν)
    (id : UInt32) : Prop where
  entry : c.etcd.lookup (createKey id) = some ⟨label n, id⟩
  pc : (c.node n).pc ≠ .delete

theorem Holds.set {m : ν} (h : Holds label c n id)
    (hentry : etcd.lookup (createKey id) = some ⟨label n, id⟩)
    (hpc : m = n → a.pc ≠ .delete) :
    Holds label (Cluster.set ⟨etcd, c.node⟩ m a) n id := by
  refine ⟨hentry, ?_⟩
  by_cases hm : n = m
  · subst hm
    rw [Cluster.node_set_self]
    exact hpc rfl
  · rw [Cluster.node_set_of_ne hm]
    exact h.pc

theorem Holds.step (h : Inv label c) (hlabel : Function.Injective label)
    (hholds : Holds label c n id) {action : Action ν}
    (haction : action ≠ .releaseID n) :
    Holds label (NodeID.step label c action) n id := by
  cases action with
  | getID m =>
      refine hholds.set hholds.entry fun hm => ?_
      rcases getID_cases (c.node m) with hsame | hpc | hpc
      · rw [hsame]
        exact hm ▸ hholds.pc
      · simp [hpc]
      · simp [hpc]
  | releaseID m =>
      exact hholds.set hholds.entry fun hm => absurd (by rw [hm]) haction
  | crash m => exact hholds.set hholds.entry fun _ => by simp [newIDAllocator]
  | proceed m reply =>
      have hres := proceeds (label m) c.etcd (c.node m) reply
      change Holds label (Cluster.set ⟨(proceed (label m) c.etcd (c.node m)
        reply).1, c.node⟩ m (proceed (label m) c.etcd (c.node m) reply).2) n id
      generalize proceed (label m) c.etcd (c.node m) reply = res at hres ⊢
      cases hres with
      | stop a' hpc halloc hid =>
          exact hholds.set hholds.entry fun _ => by simp [hpc]
      | delete hpc =>
          have hkey : createKey id ≠ createKey (c.node m).ID := by
            intro heq
            have hown := h.owns m (h.deleting m hpc)
            rw [← heq, hholds.entry, Option.some.injEq,
              Identifier.mk.injEq] at hown
            rw [← hlabel hown.1] at hpc
            exact hholds.pc hpc
          exact hholds.set (by rw [AList.lookup_erase_ne hkey, hholds.entry])
            fun _ => by simp
      | found hpc order e hfind =>
          exact hholds.set hholds.entry fun _ => by simp [succeed]
      | notFound hpc order hfind =>
          exact hholds.set hholds.entry fun _ => by simp
      | listed attempts hpc order ids hlist =>
          exact hholds.set hholds.entry fun _ => by simp
      | written attempts ids hpc hfree =>
          have hkey : createKey id ≠ createKey (c.node m).ID := by
            intro heq
            rw [← heq, hholds.entry] at hfree
            cases hfree
          exact hholds.set (by rw [AList.lookup_insert_ne hkey, hholds.entry])
            fun _ => by simp [succeed]
      | retry attempts ids hpc =>
          exact hholds.set hholds.entry fun _ => by simp

/-- Until the node releases it, it has its entry, and any ID that it gets is
that of the entry. -/
theorem Holds.run (h : Inv label c) (hlabel : Function.Injective label)
    (hholds : Holds label c n id) (actions : List (Action ν))
    (hactions : .releaseID n ∉ actions) :
    Holds label (actions.foldl (NodeID.step label) c) n id ∧
      Inv label (actions.foldl (NodeID.step label) c) := by
  induction actions generalizing c with
  | nil => exact ⟨hholds, h⟩
  | cons action actions ih =>
      rw [List.mem_cons, not_or] at hactions
      exact ih (h.step hlabel action)
        (hholds.step h hlabel (Ne.symm hactions.1)) hactions.2

omit [DecidableEq ν] in
theorem Holds.id_eq (h : Inv label c) (hholds : Holds label c n id)
    (halloc : (c.node n).allocated = true) :
    (c.node n).ID = id :=
  createKey_inj.mp (h.single _ _ _ _ (h.owns n halloc) hholds.entry rfl)

/-! ## Nodes that allocate one after the other -/

/-- These nodes have allocated IDs in order, starting with one, and the others
have not started yet. -/
structure Filled (label : ν → String) (ns : List ν) (c : Cluster ν) : Prop where
  entries : ∀ key e, c.etcd.lookup key = some e ↔
    ∃ i, ∃ h : i < ns.length, key = createKey (UInt32.ofNat (i + 1)) ∧
      e = ⟨label (ns.get ⟨i, h⟩), UInt32.ofNat (i + 1)⟩
  allocated : ∀ i, ∀ h : i < ns.length,
    c.node (ns.get ⟨i, h⟩) = succeed (UInt32.ofNat (i + 1))
  fresh : ∀ n ∉ ns, c.node n = newIDAllocator

def propose (n : ν) : List (Action ν) :=
  [.getID n, .proceed n (.done .insertion), .proceed n (.done .insertion)]

section Filled

variable {ns : List ν}

omit [DecidableEq ν] in
theorem Filled.mem_listing (h : Filled label ns c)
    (hlen : ns.length < 2 ^ 32) (order : RangeOrder (String × Identifier))
    (v : ℤ) : v ∈ listing order c.etcd ↔ 1 ≤ v ∧ v ≤ ns.length := by
  have hnat : ∀ i < ns.length, (UInt32.ofNat (i + 1)).toNat = i + 1 :=
    fun i hi => UInt32.toNat_ofNat_of_lt' (by rw [UInt32.size]; omega)
  rw [listing, List.mem_map]
  constructor
  · rintro ⟨⟨key, e⟩, hmem, hv⟩
    obtain ⟨i, hi, _, he⟩ := (h.entries key e).mp (mem_range.mp hmem)
    rw [← hv, he, hnat i hi]
    omega
  · intro hv
    have hi : (v - 1).toNat < ns.length := by omega
    refine ⟨(createKey (UInt32.ofNat ((v - 1).toNat + 1)), _),
      mem_range.mpr ((h.entries _ _).mpr ⟨_, hi, rfl, rfl⟩), ?_⟩
    change (((UInt32.ofNat ((v - 1).toNat + 1)).toNat : ℕ) : ℤ) = v
    rw [hnat _ hi]
    omega

omit [DecidableEq ν] in
theorem Filled.findFirstAvailableIndex_eq (h : Filled label ns c)
    (hinv : Inv label c) (hlen : ns.length < 2 ^ 32)
    (order : RangeOrder (String × Identifier)) :
    findFirstAvailableIndex ((listing order c.etcd).mergeSort (· ≤ ·)) =
      ns.length + 1 := by
  have hmem : ∀ v, v ∈ (listing order c.etcd).mergeSort (· ≤ ·) ↔
      1 ≤ v ∧ v ≤ ns.length := by
    intro v
    rw [List.mem_mergeSort, h.mem_listing hlen order]
  obtain ⟨hleast, _⟩ := findFirstAvailableIndex_spec
    (hinv.sorted_listing order) fun v hv => ((hmem v).mp hv).1
  have hpos := hleast.positive
  have habsent := hleast.absent
  rw [hmem] at habsent
  by_contra hne
  have hin := hleast.least (ns.length + 1) (by omega) (by omega)
  rw [hmem] at hin
  omega

theorem Filled.propose (h : Filled label ns c) (hinv : Inv label c)
    (hlabel : Function.Injective label) (hlen : ns.length < 2 ^ 32)
    (hn : n ∉ ns) :
    ∃ ids, (NodeID.propose n).foldl (step label) c = c.set n
      { newIDAllocator with
        ID := toUInt32 (ns.length + 1), pc := .writeIfNotExists 1 ids } := by
  have hnone : findExistingEntry (label n) (range .insertion c.etcd) = none := by
    rw [findExistingEntry_eq_none]
    intro key e he hname
    obtain ⟨i, hi, _, heq⟩ := (h.entries key e).mp he
    rw [heq] at hname
    exact hn (hlabel hname ▸ List.get_mem ns ⟨i, hi⟩)
  refine ⟨(listing .insertion c.etcd).mergeSort (· ≤ ·), ?_⟩
  have hfirst : step label c (.getID n) =
      c.set n { newIDAllocator with pc := .findExistingEntry } := by
    rw [step, h.fresh n hn]
    rfl
  have hset : ∀ a b, (c.set n a).set n b = c.set n b := by
    intro a b
    simp [Cluster.set]
  have hsecond : step label (c.set n
      { newIDAllocator with pc := .findExistingEntry })
      (.proceed n (.done .insertion)) =
      c.set n { newIDAllocator with pc := .listAllIDs 0 } := by
    rw [step, Cluster.node_set_self]
    simp only [proceed, Cluster.etcd_set, hnone]
    exact hset _ _
  have hthird : step label (c.set n
      { newIDAllocator with pc := .listAllIDs 0 })
      (.proceed n (.done .insertion)) = c.set n
        { newIDAllocator with
          ID := toUInt32 (ns.length + 1)
          pc := .writeIfNotExists 1
            ((listing .insertion c.etcd).mergeSort (· ≤ ·)) } := by
    rw [step, Cluster.node_set_self]
    simp only [proceed, Cluster.etcd_set, hinv.listAllIDs_eq,
      h.findFirstAvailableIndex_eq hinv hlen]
    exact hset _ _
  rw [NodeID.propose, List.foldl_cons, hfirst, List.foldl_cons, hsecond,
    List.foldl_cons, hthird, List.foldl_nil]

theorem Filled.write (h : Filled label ns c)
    (hlen : ns.length + 1 < 2 ^ 32) (hn : n ∉ ns) :
    c.etcd.lookup (createKey (UInt32.ofNat (ns.length + 1))) = none ∧
      Filled label (ns ++ [n]) (Cluster.set
        ⟨c.etcd.insert (createKey (UInt32.ofNat (ns.length + 1)))
          ⟨label n, UInt32.ofNat (ns.length + 1)⟩, c.node⟩ n
        (succeed (UInt32.ofNat (ns.length + 1)))) := by
  have hkey : ∀ i < ns.length, createKey (UInt32.ofNat (i + 1)) ≠
      createKey (UInt32.ofNat (ns.length + 1)) := by
    intro i hi heq
    have hnat := congrArg UInt32.toNat (createKey_inj.mp heq)
    rw [UInt32.toNat_ofNat_of_lt' (by rw [UInt32.size]; omega),
      UInt32.toNat_ofNat_of_lt' (by rw [UInt32.size]; omega)] at hnat
    omega
  have hfree : c.etcd.lookup
      (createKey (UInt32.ofNat (ns.length + 1))) = none := by
    rw [Option.eq_none_iff_forall_ne_some]
    intro e he
    obtain ⟨i, hi, heq, _⟩ := (h.entries _ e).mp he
    exact hkey i hi heq.symm
  have hold : ∀ i, ∀ hi : i < ns.length, ∀ hi' : i < (ns ++ [n]).length,
      (ns ++ [n]).get ⟨i, hi'⟩ = ns.get ⟨i, hi⟩ := by
    intro i hi hi'
    exact List.getElem_append_left hi
  have hlast : ∀ hi' : ns.length < (ns ++ [n]).length,
      (ns ++ [n]).get ⟨ns.length, hi'⟩ = n := by
    intro hi'
    simp
  refine ⟨hfree, fun key e => ?_, fun i hi => ?_, fun m hm => ?_⟩
  · rw [Cluster.etcd_set]
    by_cases heq : key = createKey (UInt32.ofNat (ns.length + 1))
    · subst heq
      rw [AList.lookup_insert, Option.some.injEq]
      constructor
      · intro he
        exact ⟨ns.length, by simp, rfl, by rw [hlast, he]⟩
      · rintro ⟨i, hi, hk, he⟩
        rw [List.length_append, List.length_singleton] at hi
        have hi' : i = ns.length := by
          by_contra hne
          exact hkey i (by omega) hk.symm
        subst hi'
        rw [he, hlast]
    · rw [AList.lookup_insert_ne heq, h.entries]
      constructor
      · rintro ⟨i, hi, hk, he⟩
        have hi' : i < (ns ++ [n]).length := by
          rw [List.length_append]
          omega
        exact ⟨i, hi', hk, by rw [hold i hi hi', he]⟩
      · rintro ⟨i, hi, hk, he⟩
        rw [List.length_append, List.length_singleton] at hi
        have hi' : i < ns.length := by
          by_contra hge
          have : i = ns.length := by omega
          rw [this] at hk
          exact heq hk
        exact ⟨i, hi', hk, by rw [he, hold i hi']⟩
  · by_cases hi' : i < ns.length
    · rw [hold i hi' hi, Cluster.node_set_of_ne, h.allocated i hi']
      intro heq
      exact hn (heq ▸ List.get_mem ns ⟨i, hi'⟩)
    · have heq : i = ns.length := by
        rw [List.length_append, List.length_singleton] at hi
        omega
      subst heq
      rw [hlast, Cluster.node_set_self]
  · rw [List.mem_append, not_or, List.mem_singleton] at hm
    rw [Cluster.node_set_of_ne hm.2]
    exact h.fresh m hm.1

theorem exists_filled (hlabel : Function.Injective label) (ns : List ν)
    (hnodup : ns.Nodup) (hlen : ns.length < 2 ^ 32) :
    ∃ actions, Filled label ns (run label actions) := by
  induction ns using List.reverseRecOn with
  | nil =>
      refine ⟨[], fun key e => ?_, fun i hi => by simp at hi, fun _ _ => rfl⟩
      simp [run, init]
  | append_singleton ns n ih =>
      rw [List.length_append, List.length_singleton] at hlen
      obtain ⟨hns, _, hdisjoint⟩ := List.nodup_append.mp hnodup
      have hn : n ∉ ns := fun hmem => hdisjoint n hmem n (by simp) rfl
      obtain ⟨actions, hfilled⟩ := ih hns (by omega)
      obtain ⟨ids, hpropose⟩ := hfilled.propose (inv_run hlabel actions) hlabel
        (by omega) hn
      refine ⟨actions ++ propose n ++ [.proceed n (.done .insertion)], ?_⟩
      obtain ⟨hfree, hwritten⟩ := hfilled.write hlen hn
      have hid : toUInt32 (ns.length + 1) = UInt32.ofNat (ns.length + 1) := by
        rw [toUInt32, Int.emod_eq_of_lt (by omega) (by omega)]
        congr 1
      rw [run, List.foldl_append, List.foldl_append, List.foldl_cons,
        List.foldl_nil]
      change Filled label (ns ++ [n]) (step label
        ((propose n).foldl (step label) (run label actions))
        (.proceed n (.done .insertion)))
      rw [hpropose, hid, step, Cluster.node_set_self]
      simp only [proceed, Cluster.etcd_set, hfree]
      have hset : ∀ etcd a b, Cluster.set ⟨etcd,
          (Cluster.set (run label actions) n a).node⟩ n b =
          Cluster.set ⟨etcd, (run label actions).node⟩ n b := by
        intro etcd a b
        simp [Cluster.set]
      rw [hset]
      exact hwritten

end Filled

/-! ## Safety -/

/-- An allocator that has an ID owns the entry for it, no label owns two
entries, and no two allocators have the same ID. -/
structure Safe (label : ν → String) (c : Cluster ν) : Prop where
  owns : ∀ n, (c.node n).allocated = true →
    c.etcd.lookup (createKey (c.node n).ID) = some ⟨label n, (c.node n).ID⟩
  single : ∀ key key' e e', c.etcd.lookup key = some e →
    c.etcd.lookup key' = some e' → e.name = e'.name → key = key'
  distinct : ∀ n m, (c.node n).allocated = true →
    (c.node m).allocated = true → (c.node n).ID = (c.node m).ID → n = m

/-- A node with an entry that looks for it gets its ID, and whatever happens
until it releases the ID, it will not get another one. -/
structure Returns (label : ν → String) (c : Cluster ν) (n : ν)
    (id : UInt32) : Prop where
  found : (c.node n).pc = .findExistingEntry → ∀ order,
    step label c (.proceed n (.done order)) = c.set n (succeed id)
  later : ∀ actions : List (Action ν), .releaseID n ∉ actions →
    ((actions.foldl (step label) c).node n).allocated = true →
      ((actions.foldl (step label) c).node n).ID = id

/-- Every proposal is the least positive number that is not in the listing it
was computed from. -/
def ProposesLeast (c : Cluster ν) : Prop :=
  ∀ n attempts ids, (c.node n).pc = .writeIfNotExists attempts ids →
    LeastAbsent ids (c.node n).ID.toNat

omit [DecidableEq ν] in
theorem Inv.safe (h : Inv label c) (hlabel : Function.Injective label) :
    Safe label c where
  owns := h.owns
  single := h.single
  distinct n m hn hm heq := by
    have hown := h.owns n hn
    rw [heq, h.owns m hm, Option.some.injEq, Identifier.mk.injEq] at hown
    exact (hlabel hown.1).symm

theorem Holds.returns (h : Inv label c) (hlabel : Function.Injective label)
    (hholds : Holds label c n id) : Returns label c n id where
  found hpc order := by
    simp only [NodeID.step, NodeID.proceed, hpc,
      h.findExistingEntry_eq hholds.entry order]
  later actions hactions halloc := by
    obtain ⟨hlater, hinv⟩ := hholds.run h hlabel actions hactions
    exact hlater.id_eq hinv halloc

/-- In every reachable state the allocation is safe, and a node that has an
entry gets the same ID back.  With fewer than `2 ^ 32` nodes, the proposals
are least. -/
theorem run_safe [Fintype ν] (hlabel : Function.Injective label)
    (actions : List (Action ν)) :
    Safe label (run label actions) ∧
      (∀ n id, Holds label (run label actions) n id →
        Returns label (run label actions) n id) ∧
      (Fintype.card ν < 2 ^ 32 → ProposesLeast (run label actions)) := by
  have hinv := inv_run hlabel actions
  refine ⟨hinv.safe hlabel, fun n id hholds => hholds.returns hinv hlabel, ?_⟩
  intro hsmall n attempts ids hpc
  exact ((bounded_run hlabel hsmall actions).proposal n attempts ids hpc).1

def nodeName {N : ℕ} (n : Fin N) : String := n.val.repr

theorem nodeName_injective {N : ℕ} :
    Function.Injective (nodeName : Fin N → String) := by
  intro n m h
  exact Fin.ext (Texts.repr_inj.mp h)

/-- Both nodes propose the same ID, the first one gets it, and crashes. -/
def race : List (Action (Fin 2)) :=
  propose 0 ++ propose 1 ++ [.proceed 0 (.done .insertion),
    .proceed 1 (.done .insertion), .crash 0, .getID 0]

theorem run_safe_race : Function.Injective (nodeName : Fin 2 → String) ∧
    Safe nodeName (run nodeName race) ∧
      (∀ n id, Holds nodeName (run nodeName race) n id →
        Returns nodeName (run nodeName race) n id) ∧
      (Fintype.card (Fin 2) < 2 ^ 32 → ProposesLeast (run nodeName race)) :=
  ⟨nodeName_injective, run_safe nodeName_injective race⟩

/-- With `2 ^ 32` nodes, the last one proposes zero. -/
theorem exists_run_proposing_zero [Fintype ν]
    (hlabel : Function.Injective label) (hcard : Fintype.card ν = 2 ^ 32) :
    ∃ actions, ¬ ProposesLeast (run label actions) := by
  obtain ⟨n⟩ : Nonempty ν := Fintype.card_pos_iff.mp (by omega)
  have hlen : (Finset.univ.erase n).toList.length + 1 = 2 ^ 32 := by
    rw [Finset.length_toList, Finset.card_erase_of_mem (Finset.mem_univ n),
      Finset.card_univ, hcard]
    norm_num
  obtain ⟨actions, hfilled⟩ := exists_filled hlabel
    (Finset.univ.erase n).toList (Finset.nodup_toList _) (by omega)
  obtain ⟨ids, hpropose⟩ := hfilled.propose (n := n)
    (inv_run hlabel actions) hlabel (by omega) (by simp)
  refine ⟨actions ++ propose n, fun hleast => ?_⟩
  rw [run, List.foldl_append] at hleast
  change ProposesLeast ((propose n).foldl (step label)
    (run label actions)) at hleast
  rw [hpropose] at hleast
  have hpos := (hleast n 1 ids (by rw [Cluster.node_set_self])).positive
  have hzero : (((Finset.univ.erase n).toList.length : ℤ) + 1) % 2 ^ 32 = 0 := by
    have hcast : ((Finset.univ.erase n).toList.length : ℤ) + 1 = 2 ^ 32 := by
      exact_mod_cast hlen
    rw [hcast]
    rfl
  rw [Cluster.node_set_self] at hpos
  change (1 : ℤ) ≤ (toUInt32 _).toNat at hpos
  rw [toUInt32, hzero] at hpos
  exact absurd hpos (by decide)

theorem not_proposesLeast_of_manyNodes : ∃ actions : List (Action (Fin (2 ^ 32))),
      ¬ ProposesLeast (run nodeName actions) :=
  exists_run_proposing_zero nodeName_injective (Fintype.card_fin _)

end ContivVPP.NodeID
