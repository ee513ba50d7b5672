import Mathlib.Data.List.NodupEquivFin
import ContivVPP.CNIServer

/-!
# Assigned addresses and registered containers

The containers that are registered and the addresses that are assigned should
correspond to each other, each address being recorded for the network
namespace of its container.  An Add request breaks the correspondence if it
takes an address and then fails, or if its container is registered already.
Nothing else does.
-/

namespace ContivVPP.CNIServer

open GoMap Ipam

/-- The assigned addresses are in bijection with the registered containers. -/
def InBijection (s : Server) : Prop :=
  Nonempty ({ip // ip ∈ s.ipam.assignedPodIPs} ≃
    {c // c ∈ s.configuredContainers})

theorem inBijection_iff {s : Server} : InBijection s ↔
    s.ipam.assignedPodIPs.keys.length = s.configuredContainers.keys.length := by
  have hips := List.Nodup.getEquiv _ s.ipam.assignedPodIPs.keys_nodup
  have hcontainers := List.Nodup.getEquiv _ s.configuredContainers.keys_nodup
  rw [← Fin.equiv_iff_eq]
  exact ⟨fun ⟨e⟩ => ⟨hips.trans (e.trans hcontainers.symm)⟩,
    fun ⟨e⟩ => ⟨hips.symm.trans (e.trans hcontainers)⟩⟩

/-- The addresses are recorded for the network namespaces of the registered
containers, one for each. -/
structure Matched (ns : String → String) (s : Server) : Prop where
  owner : ∀ ip podID, s.ipam.assignedPodIPs.lookup ip = some podID →
    podID ≠ "" ∧ ∃ c ∈ s.configuredContainers, podID = ns c
  assigned : ∀ c ∈ s.configuredContainers,
    ∃ ip, s.ipam.assignedPodIPs.lookup ip = some (ns c)
  single : ∀ ip ip' podID, s.ipam.assignedPodIPs.lookup ip = some podID →
    s.ipam.assignedPodIPs.lookup ip' = some podID → ip = ip'

section Matched

variable {ns : String → String} {s : Server}

theorem Matched.inBijection (h : Matched ns s)
    (hns : Function.Injective ns) : InBijection s := by
  have hids : ((pairs s.ipam.assignedPodIPs).map Prod.snd).Nodup := by
    have hkeys := range_keys_nodup .insertion s.ipam.assignedPodIPs
    rw [List.Nodup, List.pairwise_map] at hkeys ⊢
    refine (List.Pairwise.and_mem.mp hkeys).imp fun {e e'} hne heq => ?_
    refine hne.2.2 (h.single e.1 e'.1 e.2 (mem_range.mp hne.1) ?_)
    rw [heq]
    exact mem_range.mp hne.2.1
  have hnames : (s.configuredContainers.keys.map ns).Nodup :=
    s.configuredContainers.keys_nodup.map hns
  have hperm : ((pairs s.ipam.assignedPodIPs).map Prod.snd).Perm
      (s.configuredContainers.keys.map ns) := by
    refine (List.perm_ext_iff_of_nodup hids hnames).mpr fun podID => ?_
    rw [List.mem_map, List.mem_map]
    constructor
    · intro hmem
      obtain ⟨e, he, rfl⟩ := hmem
      obtain ⟨_, c, hc, heq⟩ := h.owner e.1 e.2
        (mem_range (o := .insertion).mp he)
      exact ⟨c, hc, heq.symm⟩
    · intro hmem
      obtain ⟨c, hc, rfl⟩ := hmem
      obtain ⟨ip, hip⟩ := h.assigned c hc
      exact ⟨(ip, ns c), mem_range (o := .insertion).mpr hip, rfl⟩
  rw [inBijection_iff, ← pairs_keys, List.length_map]
  simpa using hperm.length_eq

theorem Matched.insert (h : Matched ns s) (hns : Function.Injective ns)
    {c : String} (hc : c ∉ s.configuredContainers) (hne : ns c ≠ "")
    {ip : UInt32} (hfree : s.ipam.assignedPodIPs.lookup ip = none)
    (config : ContainerConfig) :
    Matched ns ⟨{ s.ipam with
        assignedPodIPs := s.ipam.assignedPodIPs.insert ip (ns c) },
      s.configuredContainers.insert c config⟩ where
  owner ip' podID hip := by
    rcases lookup_insert_eq_some hip with ⟨_, rfl⟩ | ⟨_, hold⟩
    · exact ⟨hne, c, AList.mem_insert _ |>.mpr (Or.inl rfl), rfl⟩
    · obtain ⟨hpod, c', hc', heq⟩ := h.owner ip' podID hold
      exact ⟨hpod, c', AList.mem_insert _ |>.mpr (Or.inr hc'), heq⟩
  assigned c' hc' := by
    rcases (AList.mem_insert _).mp hc' with rfl | hold
    · exact ⟨ip, AList.lookup_insert _⟩
    · obtain ⟨ip', hip'⟩ := h.assigned c' hold
      refine ⟨ip', ?_⟩
      rw [AList.lookup_insert_ne (by
        intro heq
        rw [heq, hfree] at hip'
        cases hip')]
      exact hip'
  single ip₁ ip₂ podID h₁ h₂ := by
    have hnone : ∀ ip', s.ipam.assignedPodIPs.lookup ip' ≠ some (ns c) := by
      intro ip' hip'
      obtain ⟨_, c', hc', heq⟩ := h.owner ip' _ hip'
      exact hc (hns heq ▸ hc')
    rcases lookup_insert_eq_some h₁ with ⟨heq₁, hpod₁⟩ | ⟨_, hold₁⟩
    · rcases lookup_insert_eq_some h₂ with ⟨heq₂, _⟩ | ⟨_, hold₂⟩
      · rw [heq₁, heq₂]
      · exact absurd (hpod₁ ▸ hold₂) (hnone ip₂)
    · rcases lookup_insert_eq_some h₂ with ⟨_, hpod₂⟩ | ⟨_, hold₂⟩
      · exact absurd (hpod₂ ▸ hold₁) (hnone ip₁)
      · exact h.single ip₁ ip₂ podID hold₁ hold₂

theorem Matched.erase (h : Matched ns s) (hns : Function.Injective ns)
    {c : String} {ip : UInt32}
    (hip : s.ipam.assignedPodIPs.lookup ip = some (ns c)) :
    Matched ns ⟨{ s.ipam with
        assignedPodIPs := s.ipam.assignedPodIPs.erase ip },
      s.configuredContainers.erase c⟩ where
  owner ip' podID hip' := by
    obtain ⟨hne, hold⟩ := lookup_erase_eq_some hip'
    obtain ⟨hpod, c', hc', heq⟩ := h.owner ip' podID hold
    refine ⟨hpod, c', AList.mem_erase.mpr ⟨?_, hc'⟩, heq⟩
    intro hcc
    exact hne (h.single ip' ip podID hold (by rw [hip, heq, hcc]))
  assigned c' hc' := by
    obtain ⟨hne, hold⟩ := AList.mem_erase.mp hc'
    obtain ⟨ip', hip'⟩ := h.assigned c' hold
    refine ⟨ip', ?_⟩
    rw [AList.lookup_erase_ne (by
      intro heq
      rw [heq, hip, Option.some.injEq] at hip'
      exact hne (hns hip').symm)]
    exact hip'
  single ip₁ ip₂ podID h₁ h₂ :=
    h.single ip₁ ip₂ podID (lookup_erase_eq_some h₁).2 (lookup_erase_eq_some h₂).2

theorem Matched.erase_of_none (h : Matched ns s) {c : String}
    (hnone : ∀ ip, s.ipam.assignedPodIPs.lookup ip ≠ some (ns c)) :
    Matched ns ⟨s.ipam, s.configuredContainers.erase c⟩ where
  owner ip podID hip := by
    obtain ⟨hpod, c', hc', heq⟩ := h.owner ip podID hip
    refine ⟨hpod, c', AList.mem_erase.mpr ⟨?_, hc'⟩, heq⟩
    intro hcc
    exact hnone ip (by rw [hip, heq, hcc])
  assigned c' hc' := h.assigned c' (AList.mem_erase.mp hc').2
  single := h.single

variable {request : CNIRequest}

theorem Matched.delete (h : Matched ns s) (hns : Function.Injective ns)
    (cfg : ServerConfig) (env : Environment)
    (hreq : request.networkNamespace = ns request.containerId) :
    Matched ns (unconfigureContainerConnectivity cfg env request s).2 := by
  unfold unconfigureContainerConnectivity
  split
  · exact h
  · rw [hreq]
    unfold IPAM.releasePodIP
    split_ifs with hempty
    · refine h.erase_of_none fun ip hip => ?_
      exact (h.owner ip _ hip).1 (by simpa using hempty)
    · cases hfind : s.ipam.findIP env.poolOrder (ns request.containerId) with
      | error err => exact h.erase_of_none (findIP_eq_error hfind)
      | ok ip => exact h.erase hns (findIP_eq_ok hfind)

/-- What a request has to be like for the correspondence to stay: an Add
request either gets no address, or it is for a container that is not registered
yet, and no call fails. -/
def Clean (cfg : ServerConfig) (s : Server) : Request → Prop
  | .add request env =>
      ∀ podIP ipam,
        s.ipam.nextPodIP request.networkNamespace = .ok (podIP, ipam) →
          request.containerId ∉ s.configuredContainers ∧
            ∀ call ∈ addCalls cfg env request podIP, env.error call = none
  | .delete _ _ => True

theorem Matched.add (h : Matched ns s) (hns : Function.Injective ns)
    {cfg : ServerConfig} {env : Environment}
    (hreq : request.networkNamespace = ns request.containerId)
    (hclean : Clean cfg s (.add request env)) :
    Matched ns (configureContainerConnectivity cfg env request s).2 := by
  unfold configureContainerConnectivity
  cases hnext : s.ipam.nextPodIP request.networkNamespace with
  | error err => exact h
  | ok res =>
      obtain ⟨podIP, ipam⟩ := res
      obtain ⟨hc, hcalls⟩ := hclean podIP ipam hnext
      obtain ⟨hne, ip, hfree, rfl⟩ := nextPodIP_eq_ok hnext
      rw [hreq] at hne
      simp only [perform_eq_ok_iff.mpr hcalls, hreq]
      exact h.insert hns hc hne hfree _

theorem Matched.clean_of_inBijection (h : Matched ns s)
    (hns : Function.Injective ns) {cfg : ServerConfig} {env : Environment}
    (hbij : InBijection (configureContainerConnectivity cfg env request s).2) :
    Clean cfg s (.add request env) := by
  intro podIP ipam hnext
  have hlen := inBijection_iff.mp (h.inBijection hns)
  obtain ⟨_, ip, hfree, rfl⟩ := nextPodIP_eq_ok hnext
  have hips : (s.ipam.assignedPodIPs.insert ip
      request.networkNamespace).keys.length =
        s.ipam.assignedPodIPs.keys.length + 1 := by
    rw [AList.keys_insert, List.length_cons,
      List.erase_of_not_mem (AList.lookup_eq_none.mp hfree)]
  rw [inBijection_iff] at hbij
  unfold configureContainerConnectivity at hbij
  cases hperform : perform env (addCalls cfg env request podIP) with
  | error err =>
      simp only [hnext, hperform, hips] at hbij
      omega
  | ok u =>
      refine ⟨fun hc => ?_, perform_eq_ok_iff.mp hperform⟩
      simp only [hnext, hperform, hips] at hbij
      rw [AList.keys_insert, List.length_cons,
        List.length_erase_of_mem (AList.mem_keys.mp hc)] at hbij
      have hpos := List.length_pos_of_mem (AList.mem_keys.mp hc)
      omega

end Matched

theorem matched_nil (ns : String → String) (cfg : ServerConfig)
    (ipam : IPAM) : Matched ns (run cfg ipam []) where
  owner ip podID h := by cases h
  assigned c h := by cases h
  single ip ip' podID h := by cases h

theorem run_inBijection_iff {ns : String → String}
    (hns : Function.Injective ns) (cfg : ServerConfig) (ipam : IPAM)
    {requests : List Request}
    (hreq : ∀ r ∈ requests,
      r.message.networkNamespace = ns r.message.containerId) :
    (∀ before, before <+: requests → InBijection (run cfg ipam before)) ↔
      ∀ before r, before ++ [r] <+: requests →
        Clean cfg (run cfg ipam before) r := by
  have hstep : ∀ before r, run cfg ipam (before ++ [r]) =
      step cfg (run cfg ipam before) r := by
    intro before r
    rw [run, List.foldl_append]
    rfl
  have hmem : ∀ before r, before ++ [r] <+: requests → r ∈ requests :=
    fun before r hpre => hpre.subset (by simp)
  refine RunCondition.forall_prefix_iff
    (Q := fun before => Matched ns (run cfg ipam before))
    (matched_nil ns cfg ipam) (fun _ h => h.inBijection hns) ?_ ?_
  · intro before r hpre h hclean
    have hr := hreq r (hmem before r hpre)
    rw [hstep]
    cases r with
    | add request env => exact h.add hns hr hclean
    | delete request env => exact h.delete hns cfg env hr
  · intro before r _ h hbij
    rw [hstep] at hbij
    cases r with
    | add request env => exact h.clean_of_inBijection hns hbij
    | delete request env => trivial

/-! ## A failed request -/

def succeeding : Environment where
  error _ := none
  vppIfName := "host-afpacket"
  nsIndex := 1
  changesOrder := .insertion
  poolOrder := .insertion

def failing : Environment :=
  { succeeding with
    error := fun call =>
      match call with
      | .putInterfaces _ => some "interfaces"
      | _ => none }

def requestFor (containerId : String) : CNIRequest :=
  ⟨containerId, containerId, "eth0", ""⟩

def vethConfig : ServerConfig := ⟨false, false, false⟩

theorem run_inBijection_iff_twoContainers :
    Function.Injective (id : String → String) ∧
      ((∀ before, before <+: [.add (requestFor "a") succeeding,
          .add (requestFor "b") failing, .delete (requestFor "a") succeeding] →
        InBijection (run vethConfig defaultIPAM before)) ↔
        ∀ before r, before ++ [r] <+: [.add (requestFor "a") succeeding,
            .add (requestFor "b") failing,
            .delete (requestFor "a") succeeding] →
          Clean vethConfig (run vethConfig defaultIPAM before) r) := by
  refine ⟨Function.injective_id, run_inBijection_iff Function.injective_id
    vethConfig defaultIPAM ?_⟩
  intro r hr
  simp only [List.mem_cons, List.not_mem_nil, or_false] at hr
  rcases hr with rfl | rfl | rfl <;> rfl

/-- An Add request that fails keeps its address. -/
theorem not_inBijection_of_failing :
    (configureContainerConnectivity vethConfig failing (requestFor "a")
      ⟨defaultIPAM, ∅⟩).1 = generateErrorResponse "interfaces" ∧
    ¬ InBijection (run vethConfig defaultIPAM
      [.add (requestFor "a") failing]) := by
  refine ⟨by rfl, ?_⟩
  rw [inBijection_iff]
  decide +kernel

end ContivVPP.CNIServer
