import ContivVPP.AclRendererCommit

/-!
# Runs of the ACL renderer

After every commit, VPP has exactly one ACL for each list of the cache that
has both rules and interfaces.  The invariant says so, and that the cache
keeps with these lists an ACL of the same name and rules, which is what the
next change of interfaces starts from.
-/

namespace ContivVPP.AclRenderer

open ContivVPP.Renderer GoMap RuleCache K8s

/-! ## What VPP should have -/

def AclInterfaces.of (interfaces : AclInterfaces) :
    TrafficDirection → List String :=
  perDirection interfaces.ingress interfaces.egress

def Acl.Lists (acl : Acl) (d : TrafficDirection) (x : String) : Prop :=
  ∃ interfaces, acl.interfaces = some interfaces ∧ x ∈ interfaces.of d

/-- VPP applies these rules to the interface, and no others. -/
structure Enforces (vpp : VppACLs) (d : TrafficDirection) (x : String)
    (rules : List ContivRule) : Prop where
  unique : rules ≠ [] → ∃ name acl, vpp name = some acl ∧ acl.Lists d x ∧
    acl.rules = rules.map renderRule ∧
    ∀ name' acl', vpp name' = some acl' → acl'.Lists d x → name' = name
  none : rules = [] → ∀ name acl, vpp name = some acl → ¬ acl.Lists d x

def effective (rules : Option Rules) : List ContivRule :=
  rules.join.getD []

/-! ## The invariant -/

structure InUse (st : State Acl) (d : TrafficDirection) (q : Ref) : Prop where
  mem : q ∈ (st.cache.lists d).refs
  interfaces : (st.heap.lists q).interfaces ≠ ∅
  rules : (st.heap.lists q).rules.getD [] ≠ []

/-- What is kept with a list is an ACL for its rules. -/
def Keeps (list : ContivRuleList Acl) : Prop :=
  ∃ acl, list.priv = some acl ∧ acl.aclName = list.id ∧
    acl.rules = renderRules list.rules

structure Renders (d : TrafficDirection) (list : ContivRuleList Acl)
    (acl : Acl) : Prop where
  name : acl.aclName = list.id
  rules : acl.rules = renderRules list.rules
  interfaces : ∃ o, acl.interfaces = some (renderInterfaces o list.interfaces d)

structure Inv (r : Renderer) (last : TrafficDirection → String → Option Rules) :
    Prop where
  consistent : Consistent r.cache
  rules : ∀ d x, effective (((r.cache.cache.lists d).byInterface x).map
    fun q => (r.cache.heap.lists q).rules) = effective (last d x)
  kept : ∀ d q, InUse r.cache d q → Keeps (r.cache.heap.lists q)
  stored : ∀ d q, InUse r.cache d q → ∃ acl,
    r.vpp (r.cache.heap.lists q).id = some acl ∧
      Renders d (r.cache.heap.lists q) acl
  only : ∀ name acl, r.vpp name = some acl →
    ∃ d q, InUse r.cache d q ∧ (r.cache.heap.lists q).id = name

theorem lists_renderInterfaces {o : SetOrder String} {set : InterfaceSet}
    {name : String} {rules : List AclRule} {d d' : TrafficDirection}
    {x : String} :
    (⟨name, rules, some (renderInterfaces o set d)⟩ : Acl).Lists d' x ↔
      d' = d ∧ x ∈ set := by
  simp only [Acl.Lists, Option.some.injEq, exists_eq_left', AclInterfaces.of]
  cases d <;> cases d' <;> simp [renderInterfaces, perDirection, o.mem_order]

theorem Renders.lists_iff {d : TrafficDirection} {list : ContivRuleList Acl}
    {acl : Acl} (h : Renders d list acl) (d' : TrafficDirection)
    (x : String) : acl.Lists d' x ↔ d' = d ∧ x ∈ list.interfaces := by
  obtain ⟨o, ho⟩ := h.interfaces
  rw [Acl.Lists, ho]
  exact @lists_renderInterfaces o _ acl.aclName acl.rules d d' x

theorem Inv.enforces {r : Renderer}
    {last : TrafficDirection → String → Option Rules} (h : Inv r last)
    (d : TrafficDirection) (x : String) :
    Enforces r.vpp d x (effective (last d x)) := by
  have howner : ∀ name acl, r.vpp name = some acl → acl.Lists d x →
      ∃ q, InUse r.cache d q ∧ (r.cache.heap.lists q).id = name ∧
        (r.cache.cache.lists d).byInterface x = some q := by
    intro name acl hacl hlists
    obtain ⟨d', q, hq, hid⟩ := h.only name acl hacl
    obtain ⟨acl', hacl', hrenders⟩ := h.stored d' q hq
    rw [hid, hacl, Option.some.injEq] at hacl'
    rw [← hacl'] at hrenders
    obtain ⟨hd, hx⟩ := (hrenders.lists_iff d x).mp hlists
    rw [← hd] at hq
    exact ⟨q, hq, hid, ((h.consistent.wf d).byInterface_iff x q).mpr ⟨hq.mem, hx⟩⟩
  have hrules := h.rules d x
  constructor
  · intro hne
    rw [← hrules] at hne ⊢
    cases hq : (r.cache.cache.lists d).byInterface x with
    | none => simp [hq, effective] at hne
    | some q =>
        rw [hq] at hne
        obtain ⟨hmem, hx⟩ := ((h.consistent.wf d).byInterface_iff x q).mp hq
        have huse : InUse r.cache d q :=
          ⟨hmem, Finset.ne_empty_of_mem hx, hne⟩
        obtain ⟨acl, hacl, hrenders⟩ := h.stored d q huse
        refine ⟨_, acl, hacl, (hrenders.lists_iff d x).mpr ⟨rfl, hx⟩,
          hrenders.rules, fun name' acl' hacl' hlists' => ?_⟩
        obtain ⟨q', _, hid', hq'⟩ := howner name' acl' hacl' hlists'
        rw [hq, Option.some.injEq] at hq'
        rw [← hid', hq']
  · intro hnil name acl hacl hlists
    obtain ⟨q, huse, _, hq⟩ := howner name acl hacl hlists
    rw [hq, hnil] at hrules
    exact huse.rules hrules

/-! ## One transaction -/

section Step

variable {s : Txn} {upd last : TrafficDirection → String → Option Rules}
  {vpp : VppACLs} {o : SetOrder String} {d : TrafficDirection} {r : Ref}

theorem previous_eq_of_id (hin : InTxn s upd) {b : Ref}
    (hb : b ∈ (s.1.cache.lists d).refs)
    (hid : (s.1.heap.lists b).id = (s.1.heap.lists r).id) :
    previous s d r = (s.1.heap.lists b).interfaces := by
  rw [← interfacesOf_of_mem (hin.pending d).baseWF hb, hid]

theorem exists_inUse_of_previous (hin : InTxn s upd) (hpriv : TxnPriv s)
    (hr : r ∈ (s.2.lists d).refs)
    (hrules : (s.1.heap.lists r).rules.getD [] ≠ [])
    (hprev : previous s d r ≠ ∅) :
    ∃ b, InUse s.1 d b ∧ (s.1.heap.lists b).id = (s.1.heap.lists r).id ∧
      (s.1.heap.lists b).rules = (s.1.heap.lists r).rules ∧
      (s.1.heap.lists b).interfaces = previous s d r ∧
      (s.1.heap.lists b).priv = (s.1.heap.lists r).priv := by
  cases hbase : (s.1.cache.lists d).lookupByID (s.1.heap.lists r).id with
  | none => simp [State.interfacesOf, hbase] at hprev
  | some b =>
      obtain ⟨hb, hid⟩ := ((hin.pending d).baseWF.byID_iff _ b).mp hbase
      have hrules' : (s.1.heap.lists b).rules = (s.1.heap.lists r).rules :=
        ((hin.pending d).id_iff r hr b hb).mp hid
      rw [previous_eq_of_id hin hb hid] at hprev ⊢
      exact ⟨b, ⟨hb, hprev, by rwa [hrules']⟩, hid, hrules', rfl,
        hpriv d r hr b hb hid⟩

theorem assertable_of_inUse (hin : InTxn s upd) (hpriv : TxnPriv s)
    (hnamed : ∀ d b, InUse s.1 d b → ∃ acl, (s.1.heap.lists b).priv = some acl ∧
        acl.aclName = (s.1.heap.lists b).id)
    {change : TxnChange} (hmem : change ∈ changesOf s d) :
    Assertable s.1.heap change := by
  intro hne
  obtain ⟨hchanged, hprev⟩ := mem_changesOf.mp hmem
  rw [hprev] at hne
  obtain ⟨b, huse, hid, _, _, hcopy⟩ :=
    exists_inUse_of_previous hin hpriv hchanged.1 hchanged.2.1 hne
  obtain ⟨acl, hacl, hname⟩ := hnamed d b huse
  exact ⟨acl, hcopy ▸ hacl, hname.trans hid⟩

theorem Renders.keeps {list list' : ContivRuleList Acl} {acl : Acl}
    (h : Renders d list acl) (hpriv : list'.priv = some acl)
    (hid : list'.id = list.id) (hrules : list'.rules = list.rules) :
    Keeps list' := by
  refine ⟨acl, hpriv, ?_, ?_⟩
  · rw [hid, h.name]
  · rw [hrules, h.rules]

theorem opValue_renders (hin : InTxn s upd) (hpriv : TxnPriv s)
    (hinv : Inv ⟨s.1, vpp⟩ last) (hr : r ∈ (s.2.lists d).refs)
    (hrules : (s.1.heap.lists r).rules.getD [] ≠ [])
    (hne : (s.1.heap.lists r).interfaces ≠ ∅) :
    ∃ acl, opValue o d (s.1.heap.lists r) (previous s d r) = some acl ∧
      Renders d (s.1.heap.lists r) acl := by
  by_cases hprev : previous s d r = ∅
  · refine ⟨renderACL o (s.1.heap.lists r) d, ?_, rfl, rfl, o, rfl⟩
    rw [opValue, if_pos hprev]
  · obtain ⟨b, huse, hid, hrules', _, hcopy⟩ :=
      exists_inUse_of_previous hin hpriv hr hrules hprev
    obtain ⟨acl, hacl, hname, haclRules⟩ := hinv.kept d b huse
    refine ⟨⟨acl.aclName, acl.rules,
      some (renderInterfaces o (s.1.heap.lists r).interfaces d)⟩, ?_,
      hname.trans hid, ?_, o, rfl⟩
    · rw [opValue, if_neg hprev, if_pos hne, ← hcopy, hacl]
      rfl
    · rw [← hrules']
      exact haclRules

theorem exists_inUse_of_unchanged (hin : InTxn s upd) (hpriv : TxnPriv s)
    (hr : r ∈ (s.2.lists d).refs)
    (hrules : (s.1.heap.lists r).rules.getD [] ≠ [])
    (hne : (s.1.heap.lists r).interfaces ≠ ∅) (hnot : ¬ Changed s d r) :
    ∃ b, InUse s.1 d b ∧ (s.1.heap.lists b).id = (s.1.heap.lists r).id ∧
      (s.1.heap.lists b).rules = (s.1.heap.lists r).rules ∧
      (s.1.heap.lists b).interfaces = (s.1.heap.lists r).interfaces ∧
      (s.1.heap.lists b).priv = (s.1.heap.lists r).priv := by
  have heq : (s.1.heap.lists r).interfaces = previous s d r := by
    by_contra hdiff
    exact hnot ⟨hr, hrules, hdiff⟩
  rw [heq]
  exact exists_inUse_of_previous hin hpriv hr hrules (heq ▸ hne)

theorem current_of_inUse (hin : InTxn s upd) {b : Ref} (huse : InUse s.1 d b) :
    (∃ r, Changed s d r ∧ (s.1.heap.lists r).id = (s.1.heap.lists b).id) ∨
    ∃ r, Current s d r ∧ (s.1.heap.lists r).id = (s.1.heap.lists b).id ∧
      (s.1.heap.lists r).rules = (s.1.heap.lists b).rules ∧
      (s.1.heap.lists r).interfaces = (s.1.heap.lists b).interfaces := by
  by_cases hcov : Covered s.1.heap (s.2.lists d) b
  · obtain ⟨r, hr, hid⟩ := hcov
    have hrules : (s.1.heap.lists b).rules = (s.1.heap.lists r).rules :=
      ((hin.pending d).id_iff r hr b huse.mem).mp hid.symm
    by_cases hchanged : Changed s d r
    · exact Or.inl ⟨r, hchanged, hid⟩
    · refine Or.inr ⟨r, Or.inl hr, hid, hrules.symm, ?_⟩
      rw [← previous_eq_of_id hin huse.mem hid.symm]
      by_contra hdiff
      exact hchanged ⟨hr, hrules ▸ huse.rules, hdiff⟩
  · exact Or.inr ⟨b, Or.inr ⟨huse.mem, hcov⟩, rfl, rfl, rfl⟩

theorem eq_of_changed (hin : InTxn s upd) (hr : Current s d r)
    {d' : TrafficDirection} {r' : Ref} (hr' : Changed s d' r')
    (hid : (s.1.heap.lists r').id = (s.1.heap.lists r).id) :
    d' = d ∧ r' = r := by
  have huses : Uses s d r := by
    rcases hr with hr | hr
    · exact Or.inr hr
    · exact Or.inl hr.1
  have hd : d' = d := by
    by_contra hne
    exact hin.id_ne hne hr'.uses huses hid
  subst hd
  rcases hr with hr | hr
  · exact ⟨rfl, (hin.pending d').headWF.eq_of_id hr'.1 hr hid⟩
  · exact absurd ⟨r', hr'.1, hid⟩ hr.2

variable {r' : Renderer} {c : CommitChoices}

theorem Saved.stored (hsaved : Saved c vpp s r') (hin : InTxn s upd)
    (hpriv : TxnPriv s) (hinv : Inv ⟨s.1, vpp⟩ last) (hr : Current s d r)
    (hrules : (s.1.heap.lists r).rules.getD [] ≠ [])
    (hne : (s.1.heap.lists r).interfaces ≠ ∅) :
    ∃ acl, r'.vpp (s.1.heap.lists r).id = some acl ∧
      Renders d (s.1.heap.lists r) acl := by
  by_cases hchanged : Changed s d r
  · rw [hsaved.put d r hchanged]
    exact opValue_renders hin hpriv hinv hchanged.1 hrules hne
  · have hrest : r'.vpp (s.1.heap.lists r).id = vpp (s.1.heap.lists r).id := by
      refine hsaved.rest _ fun d' r₂ hr₂ hid => hchanged ?_
      obtain ⟨hd, heq⟩ := eq_of_changed hin hr hr₂ hid
      rw [← hd, ← heq]
      exact hr₂
    rw [hrest]
    rcases hr with hr | hr
    · obtain ⟨b, huse, hid, hrules', hifs, _⟩ :=
        exists_inUse_of_unchanged hin hpriv hr hrules hne hchanged
      obtain ⟨acl, hacl, hrenders⟩ := hinv.stored d b huse
      rw [← hid]
      refine ⟨acl, hacl, hrenders.name.trans hid, ?_, ?_⟩
      · rw [← hrules']
        exact hrenders.rules
      · rw [← hifs]
        exact hrenders.interfaces
    · exact hinv.stored d r ⟨hr.1, hne, hrules⟩

theorem Saved.only (hsaved : Saved c vpp s r') (hin : InTxn s upd)
    (hinv : Inv ⟨s.1, vpp⟩ last) {name : String} {acl : Acl}
    (hacl : r'.vpp name = some acl) :
    ∃ d r, Current s d r ∧ (s.1.heap.lists r).id = name ∧
      (s.1.heap.lists r).rules.getD [] ≠ [] ∧
      (s.1.heap.lists r).interfaces ≠ ∅ := by
  by_cases hname : ∃ d r, Changed s d r ∧ (s.1.heap.lists r).id = name
  · obtain ⟨d, r, hr, hid⟩ := hname
    refine ⟨d, r, Or.inl hr.1, hid, hr.2.1, fun hempty => ?_⟩
    have hprev : previous s d r ≠ ∅ := by
      rw [← hempty]
      exact hr.2.2.symm
    have hput := hsaved.put d r hr
    rw [opValue, if_neg hprev, if_neg (not_not.mpr hempty), hid, hacl] at hput
    simp at hput
  · push Not at hname
    rw [hsaved.rest name hname] at hacl
    obtain ⟨d, b, huse, hid⟩ := hinv.only name acl hacl
    rcases current_of_inUse hin huse with hchanged | hcurrent
    · obtain ⟨r, hr, hid'⟩ := hchanged
      exact absurd (hid'.trans hid) (hname d r hr)
    · obtain ⟨r, hr, hid', hrules, hifs⟩ := hcurrent
      exact ⟨d, r, hr, hid'.trans hid, hrules ▸ huse.rules,
        hifs ▸ huse.interfaces⟩

section

variable {h' : Heap Acl} (hrendered : RenderedTxn o s h')
include hrendered

theorem RenderedTxn.inTxn (hin : InTxn s upd) :
    InTxn ({ s.1 with heap := h' }, s.2) upd where
  pending d := (hin.pending d).congr hrendered.next.ge fun r _ => hrendered.same r
  apart := hin.apart

theorem RenderedTxn.lists_of_base (hin : InTxn s upd) {b : Ref}
    (hb : b ∈ (s.1.cache.lists d).refs) :
    h'.lists b = s.1.heap.lists b := by
  refine hrendered.outside b fun d' hchanged => ?_
  by_cases hd : d' = d
  · subst hd
    exact (hin.pending d').apart b hchanged.1 hb
  · exact hin.apart d' d hd b hchanged.uses (Or.inl hb)

theorem RenderedTxn.keeps (hin : InTxn s upd) (hpriv : TxnPriv s)
    (hinv : Inv ⟨s.1, vpp⟩ last) (hr : Current s d r)
    (hrules : (s.1.heap.lists r).rules.getD [] ≠ [])
    (hne : (s.1.heap.lists r).interfaces ≠ ∅) : Keeps (h'.lists r) := by
  by_cases hchanged : Changed s d r
  · obtain ⟨acl, hvalue, hrenders⟩ :=
      @opValue_renders s upd last vpp o d r hin hpriv hinv hchanged.1 hrules hne
    obtain ⟨hid, hrules', _⟩ := hrendered.same r
    exact hrenders.keeps ((hrendered.priv d r hchanged hne).trans hvalue) hid
      hrules'
  · have hsame : h'.lists r = s.1.heap.lists r := by
      refine hrendered.outside r fun d' hchanged' => hchanged ?_
      rw [← (eq_of_changed hin hr hchanged' rfl).1]
      exact hchanged'
    rw [hsame]
    rcases hr with hr | hr
    · obtain ⟨b, huse, hid, hrules', _, hcopy⟩ :=
        exists_inUse_of_unchanged hin hpriv hr hrules hne hchanged
      obtain ⟨acl, hacl, hname, haclRules⟩ := hinv.kept d b huse
      exact ⟨acl, hcopy ▸ hacl, hname.trans hid, hrules' ▸ haclRules⟩
    · exact hinv.kept d r ⟨hr.1, hne, hrules⟩

theorem RenderedTxn.current_iff :
    Current ({ s.1 with heap := h' }, s.2) d r ↔ Current s d r := by
  simp only [Current, Covered, (hrendered.same _).1]

theorem RenderedTxn.exists_current (hin : InTxn s upd) (hpriv : TxnPriv s)
    (hinv : Inv ⟨s.1, vpp⟩ last) (orders : TrafficDirection → SetOrder String)
    {q : Ref}
    (huse : InUse (commitTxn orders ({ s.1 with heap := h' }, s.2)) d q) :
    ∃ r, Current s d r ∧ (s.1.heap.lists r).rules.getD [] ≠ [] ∧
      (s.1.heap.lists r).interfaces ≠ ∅ ∧
      Carries ({ s.1 with heap := h' }, s.2)
        (commitTxn orders ({ s.1 with heap := h' }, s.2)) d q r ∧
      Keeps ((commitTxn orders ({ s.1 with heap := h' }, s.2)).heap.lists q) := by
  obtain ⟨r, hr, hcarries⟩ :=
    (hrendered.inTxn hin).carries orders huse.mem huse.interfaces
  obtain ⟨hid, hrules, hifs⟩ := hrendered.same r
  have hr' := hrendered.current_iff.mp hr
  have hrules' : (s.1.heap.lists r).rules.getD [] ≠ [] := by
    rw [← hrules, ← hcarries.rules]
    exact huse.rules
  have hne : (s.1.heap.lists r).interfaces ≠ ∅ := by
    rw [← hifs, ← hcarries.interfaces]
    exact huse.interfaces
  refine ⟨r, hr', hrules', hne, hcarries, ?_⟩
  have hkeeps : ∀ r₂, (h'.lists r₂).id = (h'.lists r).id →
      (h'.lists r₂).rules = (h'.lists r).rules → Keeps (h'.lists r₂) →
      ((commitTxn orders ({ s.1 with heap := h' }, s.2)).heap.lists q).priv =
        (h'.lists r₂).priv →
      Keeps ((commitTxn orders ({ s.1 with heap := h' }, s.2)).heap.lists q) := by
    intro r₂ hid₂ hrules₂ hkept hcopy
    obtain ⟨acl, hacl, hname, haclRules⟩ := hkept
    refine ⟨acl, hcopy.trans hacl, ?_, ?_⟩
    · rw [hname, hid₂, hcarries.id]
    · rw [haclRules, hrules₂, hcarries.rules]
  obtain ⟨r₂, hcase, hcopy⟩ := hcarries.priv
  rcases hcase with heq | hbase
  · refine hkeeps r₂ (by rw [heq]) (by rw [heq]) ?_ hcopy
    rw [heq]
    exact hrendered.keeps hin hpriv hinv hr' hrules' hne
  · obtain ⟨hb, hid₂, hne₂⟩ := hbase
    have hsame := hrendered.lists_of_base hin hb
    have hrules₂ : (h'.lists r₂).rules = (h'.lists r).rules := by
      rcases hr with hhead | hold
      · exact (((hrendered.inTxn hin).pending d).id_iff r hhead r₂ hb).mp hid₂
      · have heq := (hin.pending d).baseWF.eq_of_id hb hold.1
          (((hrendered.same r₂).1.symm.trans hid₂).trans hid)
        rw [heq]
    refine hkeeps r₂ hid₂ hrules₂ ?_ hcopy
    rw [hsame]
    refine hinv.kept d r₂ ⟨hb, ?_, ?_⟩
    · change (h'.lists r₂).interfaces ≠ ∅ at hne₂
      rw [← hsame]
      exact hne₂
    · rw [← hsame, hrules₂, hrules]
      exact hrules'

end

theorem Inv.commit {h' : Heap Acl} (hinv : Inv ⟨s.1, vpp⟩ last)
    (hin : InTxn s upd) (hpriv : TxnPriv s) (hsaved : Saved c vpp s r')
    (hrendered : RenderedTxn o s h')
    (hcache : r'.cache = commitTxn c.commit ({ s.1 with heap := h' }, s.2)) :
    Inv r' fun d x => (upd d x).or (last d x) where
  consistent := by
    rw [hcache]
    exact (hrendered.inTxn hin).consistent_commitTxn c.commit
  rules d x := by
    rw [hcache]
    obtain ⟨hsome, hnone⟩ :=
      (hrendered.inTxn hin).lookup_commitTxn c.commit d x
    cases hupd : upd d x with
    | some rules =>
        obtain ⟨q, hq, hrules⟩ := hsome rules hupd
        rw [hq, Option.map_some, hrules]
        rfl
    | none =>
        obtain ⟨howner, hsame⟩ := hnone hupd
        rw [howner, Option.none_or, ← hinv.rules d x]
        change effective (((s.1.cache.lists d).byInterface x).map _) = _
        cases hq : (s.1.cache.lists d).byInterface x with
        | none => rfl
        | some q =>
            simp only [Option.map_some, (hsame q hq).2, (hrendered.same q).2.1]
  kept d q huse := by
    rw [hcache] at huse ⊢
    obtain ⟨r, _, _, _, _, hkeeps⟩ :=
      hrendered.exists_current hin hpriv hinv c.commit huse
    exact hkeeps
  stored d q huse := by
    rw [hcache] at huse ⊢
    obtain ⟨r, hr, hrules, hne, hcarries, _⟩ :=
      hrendered.exists_current hin hpriv hinv c.commit huse
    obtain ⟨acl, hacl, hrenders⟩ := hsaved.stored hin hpriv hinv hr hrules hne
    obtain ⟨hid, hrules', hifs⟩ := hrendered.same r
    have hid' := hcarries.id.trans hid
    refine ⟨acl, by rw [hid', hacl], by rw [hid', hrenders.name], ?_, ?_⟩
    · rw [hcarries.rules]
      exact hrenders.rules.trans (congrArg renderRules hrules'.symm)
    · rw [hcarries.interfaces]
      change ∃ o, acl.interfaces =
        some (renderInterfaces o (h'.lists r).interfaces d)
      rw [hifs]
      exact hrenders.interfaces
  only name acl hacl := by
    rw [hcache]
    obtain ⟨d, r, hr, hid, hrules, hne⟩ := hsaved.only hin hinv hacl
    obtain ⟨hid', hrules', hifs⟩ := hrendered.same r
    obtain ⟨q, hq⟩ := (hrendered.inTxn hin).exists_carries c.commit
      (hrendered.current_iff.mpr hr) (by rw [hifs]; exact hne)
    refine ⟨d, q, ⟨hq.mem, ?_, ?_⟩, ?_⟩
    · rw [hq.interfaces]
      exact hifs.trans_ne hne
    · rw [hq.rules]
      change (h'.lists r).rules.getD [] ≠ []
      rw [hrules']
      exact hrules
    · rw [hq.id]
      exact hid'.trans hid

/-- If no ACL changes, then an interface with new rules that are not empty has
them in the cache already, and only such an interface has rules there. -/
theorem effective_of_unchanged (hin : InTxn s upd) (hpriv : TxnPriv s)
    (hnone : ∀ d r, ¬ Changed s d r) {x : String} {rules : Rules}
    (hupd : upd d x = some rules) :
    effective (((s.1.cache.lists d).byInterface x).map
      fun q => (s.1.heap.lists q).rules) = rules.getD [] := by
  obtain ⟨r, hr, hrules⟩ := (hin.pending d).assigned x rules hupd
  change (s.1.heap.lists r).rules = rules at hrules
  obtain ⟨hhead, hx⟩ := ((hin.pending d).headWF.byInterface_iff x r).mp hr
  by_cases hempty : rules.getD [] = []
  · cases hb : (s.1.cache.lists d).byInterface x with
    | none => exact hempty.symm
    | some b =>
        by_contra hne
        rw [hempty] at hne
        obtain ⟨hmem, hxb⟩ :=
          ((hin.pending d).baseWF.byInterface_iff x b).mp hb
        have huse : InUse s.1 d b := ⟨hmem, Finset.ne_empty_of_mem hxb, hne⟩
        obtain ⟨r', hmem', hid⟩ :=
          (hin.pending d).touched x b hb (by rw [hupd]; simp)
        rcases current_of_inUse hin huse with hchanged | hcurrent
        · obtain ⟨r₂, hr₂, _⟩ := hchanged
          exact hnone d r₂ hr₂
        · obtain ⟨r₂, hr₂, hid₂, hrules₂, hifs₂⟩ := hcurrent
          have hhead₂ : r₂ ∈ (s.2.lists d).refs := by
            rcases hr₂ with hr₂ | hr₂
            · exact hr₂
            · exact absurd ⟨r', hmem', hid.trans hid₂.symm⟩ hr₂.2
          have heq := (hin.pending d).headWF.eq_of_interface hhead₂ hhead
            (hifs₂ ▸ hxb) hx
          rw [heq, hrules] at hrules₂
          rw [hrules₂] at hempty
          exact hne hempty
  · obtain ⟨b, huse, _, hrules', hifs, _⟩ := exists_inUse_of_unchanged hin
      hpriv hhead (hrules ▸ hempty) (Finset.ne_empty_of_mem hx) (hnone d r)
    have howner : (s.1.cache.lists d).byInterface x = some b :=
      ((hin.pending d).baseWF.byInterface_iff x b).mpr ⟨huse.mem, hifs ▸ hx⟩
    rw [howner, Option.map_some, hrules', hrules]
    rfl

theorem Inv.unchanged (hinv : Inv ⟨s.1, vpp⟩ last) (hin : InTxn s upd)
    (hpriv : TxnPriv s) (hnone : ∀ d r, ¬ Changed s d r) :
    Inv ⟨s.1, vpp⟩ fun d x => (upd d x).or (last d x) := by
  refine ⟨hinv.consistent, fun d x => ?_, hinv.kept, hinv.stored, hinv.only⟩
  cases hupd : upd d x with
  | none => exact hinv.rules d x
  | some rules => exact effective_of_unchanged hin hpriv hnone hupd

end Step

theorem Inv.foldl_update {r : Renderer}
    {last : TrafficDirection → String → Option Rules} (h : Inv r last)
    (calls : List UpdateCall) :
    Inv ⟨(calls.foldl update (r.cache, newTxn)).1, r.vpp⟩ last := by
  have hnew := inTxn_newTxn h.consistent
  have hin := hnew.foldl_update calls
  have hlists : (calls.foldl update (r.cache, newTxn)).1.cache.lists =
      r.cache.cache.lists := (foldl_update_cache calls).1
  have hsame : ∀ {d q}, q ∈ (r.cache.cache.lists d).refs →
      (calls.foldl update (r.cache, newTxn)).1.heap.lists q =
        r.cache.heap.lists q :=
    fun hq => hnew.lists_foldl_update calls hq
  have huse : ∀ {d q}, InUse (calls.foldl update (r.cache, newTxn)).1 d q ↔
      InUse r.cache d q := by
    intro d q
    constructor
    · intro hq
      have hmem := hlists ▸ hq.mem
      exact ⟨hmem, hsame hmem ▸ hq.interfaces, hsame hmem ▸ hq.rules⟩
    · intro hq
      exact ⟨hlists ▸ hq.mem, (hsame hq.mem).symm ▸ hq.interfaces,
        (hsame hq.mem).symm ▸ hq.rules⟩
  refine ⟨⟨fun d => (hin.pending d).baseWF, fun d => (hin.pending d).baseIDs,
    fun d d' hne q hq hq' => hin.apart d d' hne q (Or.inl hq) (Or.inl hq')⟩,
    fun d x => ?_, fun d q hq => ?_, fun d q hq => ?_, fun name acl hacl => ?_⟩
  · rw [← h.rules d x]
    simp only [hlists]
    cases hq : (r.cache.cache.lists d).byInterface x with
    | none => rfl
    | some q =>
        rw [Option.map_some, Option.map_some, hsame
          (((h.consistent.wf d).byInterface_iff x q).mp hq).1]
  · have hq := huse.mp hq
    simp only [hsame hq.mem]
    exact h.kept d q hq
  · have hq := huse.mp hq
    simp only [hsame hq.mem]
    exact h.stored d q hq
  · obtain ⟨d, q, hq, hid⟩ := h.only name acl hacl
    exact ⟨d, q, huse.mpr hq, (congrArg _ (hsame hq.mem)).trans hid⟩

theorem Inv.renderAndSave {r : Renderer}
    {last : TrafficDirection → String → Option Rules} (h : Inv r last)
    (c : CommitChoices) (calls : List UpdateCall) :
    ∃ r', renderAndSave c r.vpp (calls.foldl update (r.cache, newTxn)) = .ok r' ∧
      Inv r' fun d x => (lastCall calls d x).or (last d x) := by
  have hnew := inTxn_newTxn h.consistent
  have hin := hnew.foldl_update calls
  have hpriv := hnew.txnPriv_foldl_update (txnPriv_newTxn r.cache) calls
  have hinv := h.foldl_update calls
  have hnamed : ∀ d b, InUse (calls.foldl update (r.cache, newTxn)).1 d b →
      ∃ acl, ((calls.foldl update (r.cache, newTxn)).1.heap.lists b).priv =
        some acl ∧ acl.aclName =
        ((calls.foldl update (r.cache, newTxn)).1.heap.lists b).id := by
    intro d b huse
    obtain ⟨acl, hacl, hname, _⟩ := hinv.kept d b huse
    exact ⟨acl, hacl, hname⟩
  obtain ⟨r', hrun, hsaved⟩ := renderAndSave_ok hin c r.vpp
    fun d change hmem => assertable_of_inUse hin hpriv hnamed hmem
  refine ⟨r', hrun, ?_⟩
  rcases hsaved.cache with hcase | hcase
  · obtain ⟨hnone, hcache⟩ := hcase
    have hvpp : r'.vpp = r.vpp :=
      funext fun name => hsaved.rest name fun d q hq => absurd hq (hnone d q)
    have hr' : r' = ⟨(calls.foldl update (r.cache, newTxn)).1, r.vpp⟩ := by
      rw [← hcache, ← hvpp]
    rw [hr']
    exact hinv.unchanged hin hpriv hnone
  · obtain ⟨h', hrendered, hcache⟩ := hcase
    exact hinv.commit hin hpriv hsaved hrendered hcache

/-! ## Runs -/

/-- A transaction without resync: the interfaces known to Contiv, the calls of
`Render`, and what its commit leaves open. -/
structure Transaction where
  getIfName : PodID → Option String
  calls : List RenderCall
  choices : CommitChoices

def Transaction.config (txn : Transaction) : Config :=
  txn.calls.foldl (render txn.getIfName) ∅

def step (r : Renderer) (txn : Transaction) : Except Failure Renderer :=
  commitChanges txn.choices txn.config r

def run (txns : List Transaction) : Except Failure Renderer :=
  txns.foldlM step ⟨init, fun _ => none⟩

def InterfaceConfig.rules (config : InterfaceConfig) : TrafficDirection → Rules :=
  perDirection config.ingress config.egress

def noteRender (getIfName : PodID → Option String)
    (last : TrafficDirection → String → Option Rules) (call : RenderCall) :
    TrafficDirection → String → Option Rules :=
  match getIfName call.pod with
  | some ifName => fun d => Function.update (last d) ifName
      (some (perDirection call.ingress call.egress d))
  | none => last

def noteTransaction (last : TrafficDirection → String → Option Rules)
    (txn : Transaction) : TrafficDirection → String → Option Rules :=
  txn.calls.foldl (noteRender txn.getIfName) last

def lastRendered (txns : List Transaction) :
    TrafficDirection → String → Option Rules :=
  txns.foldl noteTransaction fun _ _ => none

theorem lastCall_range (c : CommitChoices) (config : Config)
    (d : TrafficDirection) (x : String) :
    lastCall ((range c.config config).map (updateCall c)) d x =
      (config.lookup x).map fun cfg => cfg.rules d := by
  have hassign : lastCall ((range c.config config).map (updateCall c)) d =
      assignAll ((range c.config config).map fun entry =>
        (entry.1, some (entry.2.rules d))) fun _ => none := by
    rw [lastCall, assignAll, List.foldl_map, List.foldl_map]
    rfl
  rw [hassign]
  cases hlookup : config.lookup x with
  | none =>
      refine assignAll_of_notMem fun op hop heq => ?_
      obtain ⟨entry, hmem, hop⟩ := List.mem_map.mp hop
      rw [← hop] at heq
      have hsome := mem_range.mp hmem
      change entry.1 = x at heq
      rw [heq, hlookup] at hsome
      simp at hsome
  | some cfg =>
      refine assignAll_of_mem ?_
        (List.mem_map.mpr ⟨(x, cfg), mem_range.mpr hlookup, rfl⟩)
      rw [List.map_map]
      exact range_keys_nodup c.config config

theorem lookup_foldl_render (getIfName : PodID → Option String)
    (calls : List RenderCall) (config : Config)
    (last : TrafficDirection → String → Option Rules) :
    (fun d x => (((calls.foldl (render getIfName) config).lookup x).map
        fun cfg => cfg.rules d).or (last d x)) =
      calls.foldl (noteRender getIfName) fun d x =>
        ((config.lookup x).map fun cfg => cfg.rules d).or (last d x) := by
  induction calls generalizing config with
  | nil => rfl
  | cons call calls ih =>
      rw [List.foldl_cons, List.foldl_cons, ih]
      congr 1
      unfold render noteRender
      cases getIfName call.pod with
      | none => rfl
      | some ifName =>
          funext d x
          by_cases hx : x = ifName
          · subst hx
            simp only [AList.lookup_insert, Option.map_some, Option.some_or,
              Function.update_self]
            rfl
          · simp only [ne_eq, hx, not_false_eq_true, AList.lookup_insert_ne,
              Function.update_of_ne]

theorem Inv.step {r : Renderer}
    {last : TrafficDirection → String → Option Rules} (h : Inv r last)
    (txn : Transaction) :
    ∃ r', step r txn = .ok r' ∧ Inv r' (noteTransaction last txn) := by
  obtain ⟨r', hrun, hinv⟩ := h.renderAndSave txn.choices
    ((range txn.choices.config txn.config).map (updateCall txn.choices))
  refine ⟨r', hrun, ?_⟩
  have hnote := lookup_foldl_render txn.getIfName txn.calls ∅ last
  simp only [AList.lookup_empty, Option.map_none, Option.none_or] at hnote
  simp only [lastCall_range] at hinv
  rw [noteTransaction, ← hnote]
  exact hinv

theorem inv_init : Inv ⟨init, fun _ => none⟩ fun _ _ => none := by
  have hunused : ∀ d q, ¬ InUse init d q := by
    intro d q huse
    have hmem := huse.mem
    simp [init] at hmem
  have hstart : Refines (init : State Acl) _ := refines_init
  exact ⟨hstart.consistent, fun _ _ => rfl,
    fun d q huse => absurd huse (hunused d q),
    fun d q huse => absurd huse (hunused d q), fun _ _ hacl => by simp at hacl⟩

theorem Inv.run {r : Renderer}
    {last : TrafficDirection → String → Option Rules} (h : Inv r last)
    (txns : List Transaction) :
    ∃ r', txns.foldlM AclRenderer.step r = .ok r' ∧
      Inv r' (txns.foldl noteTransaction last) := by
  induction txns generalizing r last with
  | nil => exact ⟨r, rfl, h⟩
  | cons txn txns ih =>
      obtain ⟨r₁, hstep, hinv⟩ := h.step txn
      obtain ⟨r', hrun, hinv'⟩ := ih hinv
      refine ⟨r', ?_, hinv'⟩
      rw [List.foldlM_cons, hstep]
      exact hrun

/-- Every run succeeds, and after it VPP enforces for every interface and
direction just the rules that were rendered last. -/
theorem run_enforces (txns : List Transaction) : ∃ r, run txns = .ok r ∧ ∀ d x,
      Enforces r.vpp d x (effective (lastRendered txns d x)) := by
  obtain ⟨r, hrun, hinv⟩ := inv_init.run txns
  exact ⟨r, hrun, hinv.enforces⟩

end ContivVPP.AclRenderer
