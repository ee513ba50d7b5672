import ContivVPP.ConfiguratorTxn

/-!
# What a commit leaves in the renderers

With at least one configured pod that can be rendered, a resync transaction
replaces what the renderers hold.  Without one, no transaction of a renderer is
started, and they keep what they have.  A renderer that fails does not keep the
others from committing.
-/

namespace ContivVPP.Configurator

open GoMap Net K8s Renderer

/-! ## Errors -/

theorem foldl_or_eq_none {errors : List (Option String)} {err : Option String} :
    errors.foldl (fun wasError err => err.or wasError) err = none ↔
      err = none ∧ ∀ e ∈ errors, e = none := by
  induction errors generalizing err with
  | nil => simp
  | cons e errors ih =>
      rw [List.foldl_cons, ih, Option.or_eq_none_iff, List.forall_mem_cons]
      tauto

theorem mem_of_foldl_or {errors : List (Option String)}
    {err : Option String} {e : String}
    (h : errors.foldl (fun wasError err => err.or wasError) err = some e) :
    err = some e ∨ some e ∈ errors := by
  induction errors generalizing err with
  | nil => exact Or.inl h
  | cons e' errors ih =>
      rcases ih h with hor | hmem
      · cases e' with
        | none => exact Or.inl hor
        | some text => exact Or.inr (List.mem_cons.mpr (Or.inl hor.symm))
      · exact Or.inr (List.mem_cons_of_mem _ hmem)

/-- Every renderer has committed the transaction, and the error is that of one
that failed. -/
structure CommitsAll (choices : CommitChoices) (contents : List Content)
    (txn : RendererTxn) (res : Committed) : Prop where
  committed : ∀ i, res.contents[i]? = (contents[i]?).map fun content =>
    (txn.commit (choices.failure i) content).1
  succeeds : res.err = none ↔ ∀ i < contents.length, choices.failure i = none
  error : ∀ err, res.err = some err →
    ∃ i < contents.length, ∃ left, choices.failure i = some (err, left)

theorem snd_commit (txn : RendererTxn) (failure : Failure) (content : Content) :
    (txn.commit failure content).2 = failure.map Prod.fst := by
  cases failure <;> rfl

theorem commitsAll (choices : CommitChoices) (parallelRendering : Bool)
    (txn : RendererTxn) (contents : List Content) :
    CommitsAll choices contents txn
      (commitRenderers choices parallelRendering txn contents) := by
  have hmem : ∀ i, i ∈ (if parallelRendering then
      choices.arrival.order (List.range contents.length)
      else List.range contents.length) ↔ i < contents.length := by
    intro i
    split_ifs <;> simp
  have herr : ∀ i < contents.length, ((contents.mapIdx fun i content =>
        txn.commit (choices.failure i) content)[i]?).bind Prod.snd =
        (choices.failure i).map Prod.fst := by
    intro i hi
    rw [List.getElem?_mapIdx, List.getElem?_eq_getElem hi]
    simp [snd_commit]
  refine ⟨fun i => by simp [commitRenderers, Function.comp_def], ?_, ?_⟩
  · rw [commitRenderers, lastError, foldl_or_eq_none, List.forall_mem_map]
    constructor
    · intro hall i hi
      have hi' := hall.2 i ((hmem i).mpr hi)
      rw [herr i hi, Option.map_eq_none_iff] at hi'
      exact hi'
    · intro hall
      refine ⟨rfl, fun i hi => ?_⟩
      have hlt := (hmem i).mp hi
      rw [herr i hlt, hall i hlt]
      rfl
  · intro err hlast
    rcases mem_of_foldl_or hlast with hnone | hex
    · cases hnone
    · obtain ⟨i, hi, heq⟩ := List.mem_map.mp hex
      have hlt := (hmem i).mp hi
      rw [herr i hlt, Option.map_eq_some_iff] at heq
      obtain ⟨⟨err', left⟩, hfailure, rfl⟩ := heq
      exact ⟨i, hlt, left, hfailure⟩

theorem CommitsAll.apply {choices : CommitChoices} {contents : List Content}
    {txn : RendererTxn} {res : Committed}
    (h : CommitsAll choices contents txn res) (hok : res.err = none)
    (i : ℕ) : res.contents[i]? = (contents[i]?).map txn.apply := by
  rw [h.committed i]
  rcases Nat.lt_or_ge i contents.length with hlt | hge
  · rw [List.getElem?_eq_getElem hlt]
    simp [RendererTxn.commit, h.succeeds.mp hok i hlt]
  · rw [List.getElem?_eq_none hge]
    rfl

/-! ## Commits -/

def ConfiguredRenderable (lookupPod : LookupPod)
    (config : AList fun _ : PodID => List ContivPolicy) (pod : PodID) :
    Prop :=
  pod ∈ config ∧ Renderable lookupPod pod

section Commit

variable {choices : CommitChoices} {lookupPod : LookupPod}
  {parallelRendering resync : Bool}
  {config : AList fun _ : PodID => List ContivPolicy}
  {contents : List Content} {res : Committed} {s : CommitState}
  {pod : PodID}

/-- A commit either finds nothing to render, or every renderer commits one
transaction. -/
theorem commit_cases (h : commit choices lookupPod parallelRendering resync
      config contents = some res) :
    ∃ s, Collected lookupPod choices.sort (range choices.podOrder config) s ∧
      (s.renders = [] ∧ res = ⟨contents, none⟩ ∨
        s.renders ≠ [] ∧ CommitsAll choices contents ⟨resync, s.renders⟩
          res) := by
  unfold commit at h
  simp only [Option.bind_eq_bind, Option.bind_eq_some_iff, Option.pure_def,
    Option.some.injEq] at h
  obtain ⟨s, hs, hres⟩ := h
  refine ⟨s, collected_foldlM hs, ?_⟩
  split_ifs at hres with hnil
  · exact Or.inl ⟨hnil, hres.symm⟩
  · rw [← hres]
    exact Or.inr ⟨hnil, commitsAll choices parallelRendering _ contents⟩

theorem exists_commit (h : lookupPod.Sound) :
    ∃ res, commit choices lookupPod parallelRendering resync config
      contents = some res := by
  obtain ⟨s, hs⟩ := exists_foldlM h (range choices.podOrder config) ⟨[], []⟩
  exact ⟨_, by rw [commit, hs]; rfl⟩

section

variable (h : Collected lookupPod choices.sort (range choices.podOrder config) s)
include h

theorem mem_renders : pod ∈ s.renders.map Prod.fst ↔
      ConfiguredRenderable lookupPod config pod := by
  rw [h.pods, List.mem_filter, ConfiguredRenderable, Renderable]
  refine and_congr_left fun _ => ?_
  rw [List.mem_map, ← AList.lookup_isSome, Option.isSome_iff_exists]
  constructor
  · intro hmem
    obtain ⟨entry, hentry, rfl⟩ := hmem
    exact ⟨entry.2, mem_range.mp hentry⟩
  · intro hsome
    obtain ⟨policies, hpolicies⟩ := hsome
    exact ⟨(pod, policies), mem_range.mpr hpolicies, rfl⟩

theorem nodup_renders : (s.renders.map Prod.fst).Nodup := by
  rw [h.pods]
  exact (range_keys_nodup choices.podOrder config).filter _

theorem apply_of_mem {r : Rendered} (hr : (pod, r) ∈ s.renders)
    (content : Content) :
    RendererTxn.apply ⟨resync, s.renders⟩ content pod = some r := by
  unfold RendererTxn.apply
  refine assignAll_of_mem ?_ ?_
  · rw [List.map_map]
    exact nodup_renders h
  · exact List.mem_map.mpr ⟨(pod, r), hr, rfl⟩

theorem apply_of_notMem (hpod : ¬ ConfiguredRenderable lookupPod config pod)
    (content : Content) :
    RendererTxn.apply ⟨resync, s.renders⟩ content pod =
      if resync then none else content pod := by
  unfold RendererTxn.apply
  rw [assignAll_of_notMem]
  · split_ifs <;> rfl
  · intro op hop heq
    obtain ⟨r, hr, rfl⟩ := List.mem_map.mp hop
    exact hpod ((mem_renders h).mp (List.mem_map.mpr ⟨r, hr, heq⟩))

theorem apply_isSome_iff (content : Content) :
    (RendererTxn.apply ⟨resync, s.renders⟩ content pod).isSome = true ↔
      ConfiguredRenderable lookupPod config pod ∨
        resync = false ∧ (content pod).isSome = true := by
  by_cases hpod : ConfiguredRenderable lookupPod config pod
  · obtain ⟨r, hr, rfl⟩ := List.mem_map.mp ((mem_renders h).mpr hpod)
    rw [apply_of_mem h hr]
    simp [hpod]
  · rw [apply_of_notMem h hpod]
    cases resync <;> simp [hpod]

end

/-! ## Resync transactions -/

/-- Every renderer holds rules for these pods and for no others. -/
def HoldExactly (contents : List Content) (pods : PodID → Prop) : Prop :=
  ∀ content ∈ contents, ∀ pod, (content pod).isSome = true ↔ pods pod

/-- A resync transaction that succeeds replaces what the renderers hold by the
configured pods just if there is such a pod to render, or they hold nothing
before.  Whether it succeeds or not, all renderers commit the rules of these
pods. -/
theorem commit_resync_iff (choices : CommitChoices) (lookupPod : LookupPod)
    (parallelRendering : Bool) (calls : List (PodID × List ContivPolicy))
    (contents : List Content) :
    (lookupPod.Sound → ∃ res, commit choices lookupPod parallelRendering true
      (configure calls) contents = some res) ∧
    ∀ res, commit choices lookupPod parallelRendering true
        (configure calls) contents = some res →
      (res.err = none → (HoldExactly res.contents
            (ConfiguredRenderable lookupPod (configure calls)) ↔
          (∃ pod, ConfiguredRenderable lookupPod (configure calls) pod) ∨
            ∀ content ∈ contents, ∀ pod, content pod = none)) ∧
      ((∃ pod, ConfiguredRenderable lookupPod (configure calls) pod) →
        ∃ s, Collected lookupPod choices.sort
          (range choices.podOrder (configure calls)) s ∧
          CommitsAll choices contents ⟨true, s.renders⟩ res) := by
  refine ⟨exists_commit, fun res hres => ?_⟩
  obtain ⟨s, hs, hcases⟩ := commit_cases hres
  have hnil : s.renders = [] ↔
      ¬ ∃ pod, ConfiguredRenderable lookupPod (configure calls) pod := by
    rw [← List.map_eq_nil_iff (f := Prod.fst), List.eq_nil_iff_forall_not_mem,
      not_exists]
    exact forall_congr' fun pod => not_congr (mem_renders hs)
  rcases hcases with ⟨hempty, rfl⟩ | ⟨hne, hall⟩
  · have hnone := hnil.mp hempty
    refine ⟨fun _ => ?_, fun hex => absurd hex hnone⟩
    rw [or_iff_right hnone]
    unfold HoldExactly
    refine forall_congr' fun content => forall_congr' fun _ =>
      forall_congr' fun pod => ?_
    rw [iff_false_right (fun hpod => hnone ⟨pod, hpod⟩)]
    simp
  · have hex : ∃ pod, ConfiguredRenderable lookupPod (configure calls) pod :=
      not_not.mp fun hnot => hne (hnil.mpr hnot)
    refine ⟨fun hok => ?_, fun _ => ⟨s, hs, hall⟩⟩
    rw [iff_true_right (Or.inl hex)]
    intro content hcontent pod
    obtain ⟨i, hi⟩ := List.mem_iff_getElem?.mp hcontent
    rw [hall.apply hok i, Option.map_eq_some_iff] at hi
    obtain ⟨before, _, rfl⟩ := hi
    rw [apply_isSome_iff hs]
    simp

end Commit

/-! ## A resync without pods -/

def CommitChoices.succeeding : CommitChoices where
  podOrder := .insertion
  sort := .merge
  failure _ := none
  arrival := .insertion

def staleContent : Content := fun pod =>
  if pod = ⟨"web", "default"⟩ then
    some ⟨⟨[10, 1, 1, 2], [255, 255, 255, 255]⟩, [], denyTheRest⟩
  else none

/-- Nothing is configured, and the renderer keeps its rules. -/
theorem commit_resync_keeps_staleContent :
    commit .succeeding (fun _ => (false, none)) false true (configure [])
        [staleContent] = some ⟨[staleContent], none⟩ ∧
      ¬ HoldExactly [staleContent]
        (ConfiguredRenderable (fun _ => (false, none)) (configure [])) := by
  refine ⟨rfl, fun hexactly => ?_⟩
  have hpod := (hexactly staleContent (by simp) ⟨"web", "default"⟩).mp rfl
  exact absurd hpod.1 (AList.notMem_empty _)

end ContivVPP.Configurator
