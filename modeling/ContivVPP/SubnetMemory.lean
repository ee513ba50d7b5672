import ContivVPP.SubnetPieces

/-!
# Subtraction in memory

The source works on networks behind pointers, and a network has its address
and its mask as byte slices.  A piece is made from a masked copy of the
exception's address by flipping one bit in place.  The exception itself is
reached through a loop variable that is assigned before each round.  None of
these writes reaches a network that was there before.
-/

namespace ContivVPP.Configurator

open Net ByteBits

structure NetCell where
  ip : Option ℕ
  mask : Option ℕ
  deriving DecidableEq, Repr

/-- The byte slices and the networks that have been allocated. -/
structure Memory where
  slices : List (List UInt8)
  nets : List NetCell
  deriving DecidableEq, Repr

namespace Memory

def slice (m : Memory) (i : Option ℕ) : List UInt8 :=
  (i.bind (m.slices[·]?)).getD []

def cell (m : Memory) (p : ℕ) : NetCell := m.nets.getD p ⟨none, none⟩

def load (m : Memory) (p : ℕ) : IPNet :=
  ⟨m.slice (m.cell p).ip, m.slice (m.cell p).mask⟩

/-! ## Operations -/

def make (m : Memory) (bytes : List UInt8) : Memory × ℕ :=
  ({ m with slices := m.slices ++ [bytes] }, m.slices.length)

def newNet (m : Memory) (c : NetCell) : Memory × ℕ :=
  ({ m with nets := m.nets ++ [c] }, m.nets.length)

def assign (m : Memory) (p : ℕ) (c : NetCell) : Memory :=
  { m with nets := m.nets.set p c }

def flip (m : Memory) (i bit : ℕ) : Memory :=
  { m with slices := m.slices.modify i (flipBit · bit) }

def cutSubnet (m : Memory) (net2 bit : ℕ) : Memory × List ℕ :=
  let (m, subnet) := m.newNet ⟨none, none⟩
  let (m, mask) :=
    m.make (cidrMask (bit + 1) ((m.load net2).mask.length * 8))
  let m := m.assign subnet { m.cell subnet with mask := some mask }
  let (m, ip) := m.make (ipMask (m.load net2).ip (m.load subnet).mask)
  let m := m.assign subnet { m.cell subnet with ip := some ip }
  -- flip the last bit of the IP
  (m.flip ip bit, [subnet])

def collect {α : Type} (body : Memory → α → Memory × List ℕ) :
    List α → Memory → Memory × List ℕ
  | [], m => (m, [])
  | x :: xs, m =>
      let (m, result) := body m x
      let (m, results) := collect body xs m
      (m, result ++ results)

def subtractSubnet (m : Memory) (net1 net2 : ℕ) : Memory × List ℕ :=
  let net1MaskSize := (maskSize (m.load net1).mask).1
  let net2MaskSize := (maskSize (m.load net2).mask).1
  if net2MaskSize < net1MaskSize then
    (m, if (m.load net2).contains (m.load net1).ip then [] else [net1])
  else if net1MaskSize = net2MaskSize then
    (m, if ipEqual (m.load net1).ip (m.load net2).ip then [] else [net1])
  else if (m.load net1).contains (m.load net2).ip then
    collect (cutSubnet · net2)
      (List.range' net1MaskSize (net2MaskSize - net1MaskSize)) m
  else (m, [net1])

/-- One round of the loop over the exceptions, with the loop variable at
`exceptVar`. -/
def takeExcept (exceptVar : ℕ) (s : Memory × List ℕ) (except : ℕ) :
    Memory × List ℕ :=
  collect (subtractSubnet · · exceptVar) s.2
    (s.1.assign exceptVar (s.1.cell except))

/-- The subnets of one block: the loop variables for the block and for its
exceptions are allocated first. -/
def blockSubnets (m : Memory) (network : ℕ) (except : List ℕ) : Memory × List ℕ :=
  let (m, block) := m.newNet (m.cell network)
  let (m, exceptVar) := m.newNet ⟨none, none⟩
  except.foldl (takeExcept exceptVar) (m, [block])

/-! ## What stays as it is -/

structure WellFormed (m : Memory) : Prop where
  ip : ∀ c ∈ m.nets, ∀ i ∈ c.ip, i < m.slices.length
  mask : ∀ c ∈ m.nets, ∀ i ∈ c.mask, i < m.slices.length

/-- All slices and networks are still there, except that the networks at
`written` may have been assigned. -/
structure Keeps (written : List ℕ) (m m' : Memory) : Prop where
  slices : m.slices <+: m'.slices
  length : m.nets.length ≤ m'.nets.length
  cell : ∀ p < m.nets.length, p ∉ written → m'.cell p = m.cell p

theorem Keeps.refl (written : List ℕ) (m : Memory) : Keeps written m m :=
  ⟨List.prefix_rfl, le_rfl, fun _ _ _ => rfl⟩

theorem Keeps.trans {written : List ℕ} {m m' m'' : Memory}
    (h : Keeps written m m') (h' : Keeps written m' m'') :
    Keeps written m m'' where
  slices := h.slices.trans h'.slices
  length := h.length.trans h'.length
  cell p hp hnot := by
    rw [h'.cell p (hp.trans_le h.length) hnot, h.cell p hp hnot]

theorem Keeps.mono {written : List ℕ} {m m' : Memory} (h : Keeps [] m m') :
    Keeps written m m' :=
  ⟨h.slices, h.length, fun p hp _ => h.cell p hp (by simp)⟩

theorem WellFormed.cell_ip {m : Memory} (h : m.WellFormed) {p : ℕ}
    (hp : p < m.nets.length) : ∀ i ∈ (m.cell p).ip, i < m.slices.length := by
  apply h.ip
  simp [cell, hp]

theorem WellFormed.cell_mask {m : Memory} (h : m.WellFormed) {p : ℕ}
    (hp : p < m.nets.length) : ∀ i ∈ (m.cell p).mask, i < m.slices.length := by
  apply h.mask
  simp [cell, hp]

theorem slice_of_prefix {m m' : Memory} (hpre : m.slices <+: m'.slices)
    {i : Option ℕ} (hi : ∀ j ∈ i, j < m.slices.length) :
    m'.slice i = m.slice i := by
  cases i with
  | none => rfl
  | some j =>
      have hlt := hi j rfl
      obtain ⟨rest, hrest⟩ := hpre
      simp [slice, ← hrest, List.getElem?_append_left hlt]

theorem Keeps.load {written : List ℕ} {m m' : Memory}
    (h : Keeps written m m') (hm : m.WellFormed) {p : ℕ}
    (hp : p < m.nets.length) (hnot : p ∉ written) :
    m'.load p = m.load p := by
  rw [Memory.load, Memory.load, h.cell p hp hnot,
    slice_of_prefix h.slices (hm.cell_ip hp),
    slice_of_prefix h.slices (hm.cell_mask hp)]

/-! ## What the loops return -/

/-- The returned pointers are given ones or new, and lead to the networks
`nets` in the memory at the end. -/
structure Yields (given : List ℕ) (m : Memory) (r : Memory × List ℕ)
    (nets : List IPNet) : Prop where
  wellFormed : r.1.WellFormed
  keeps : Keeps [] m r.1
  fresh : ∀ p ∈ r.2, p ∈ given ∨ m.nets.length ≤ p
  bound : ∀ p ∈ r.2, p < r.1.nets.length
  loads : r.2.map r.1.load = nets

theorem Yields.self {m : Memory} (hm : m.WellFormed) {given result : List ℕ}
    (hsub : ∀ p ∈ result, p ∈ given) (hbound : ∀ p ∈ result, p < m.nets.length) :
    Yields given m (m, result) (result.map m.load) where
  wellFormed := hm
  keeps := Keeps.refl _ _
  fresh p hp := Or.inl (hsub p hp)
  bound := hbound
  loads := rfl

theorem collect_yields {α : Type} {body : Memory → α → Memory × List ℕ}
    {spec : α → List IPNet} {given : List ℕ} {m₀ : Memory} {xs : List α}
    (hbody : ∀ x ∈ xs, ∀ m, Keeps [] m₀ m → m.WellFormed →
      Yields given m (body m x) (spec x))
    {m : Memory} (hkeeps : Keeps [] m₀ m) (hm : m.WellFormed) :
    Yields given m (collect body xs m) (xs.flatMap spec) := by
  induction xs generalizing m with
  | nil => exact Yields.self hm (by simp) (by simp)
  | cons x xs ih =>
      rw [List.forall_mem_cons] at hbody
      have hfirst := hbody.1 m hkeeps hm
      have hrest := ih hbody.2 (hkeeps.trans hfirst.keeps) hfirst.wellFormed
      refine ⟨hrest.wellFormed, hfirst.keeps.trans hrest.keeps, ?_, ?_, ?_⟩
      · intro p hp
        rcases List.mem_append.mp hp with hp | hp
        · exact hfirst.fresh p hp
        · exact (hrest.fresh p hp).imp_right hfirst.keeps.length.trans
      · intro p hp
        rcases List.mem_append.mp hp with hp | hp
        · exact (hfirst.bound p hp).trans_le hrest.keeps.length
        · exact hrest.bound p hp
      · -- The first results are loaded after the later rounds.
        have hloads : (body m x).2.map
            (collect body xs (body m x).1).1.load = spec x := by
          rw [← hfirst.loads]
          apply List.map_congr_left
          intro p hp
          exact hrest.keeps.load hfirst.wellFormed (hfirst.bound p hp) (by simp)
        rw [List.flatMap_cons, ← hrest.loads, ← hloads, ← List.map_append]
        rfl

theorem newNet_keeps (m : Memory) (c : NetCell) : Keeps [] m (m.newNet c).1 where
  slices := List.prefix_rfl
  length := by simp [newNet]
  cell p hp _ := by simp [cell, newNet, List.getElem?_append_left hp]

theorem newNet_wellFormed {m : Memory} (hm : m.WellFormed) {c : NetCell}
    (hip : ∀ i ∈ c.ip, i < m.slices.length)
    (hmask : ∀ i ∈ c.mask, i < m.slices.length) :
    (m.newNet c).1.WellFormed := by
  constructor
  · intro d hd
    rcases List.mem_append.mp hd with hd | hd
    · exact hm.ip d hd
    · exact List.mem_singleton.mp hd ▸ hip
  · intro d hd
    rcases List.mem_append.mp hd with hd | hd
    · exact hm.mask d hd
    · exact List.mem_singleton.mp hd ▸ hmask

@[simp] theorem cell_last (slices : List (List UInt8)) (nets : List NetCell)
    (c : NetCell) : cell ⟨slices, nets ++ [c]⟩ nets.length = c := by
  simp [cell]

@[simp] theorem assign_last (slices : List (List UInt8)) (nets : List NetCell)
    (c d : NetCell) :
    assign ⟨slices, nets ++ [c]⟩ nets.length d = ⟨slices, nets ++ [d]⟩ := by
  simp [assign]

theorem keeps_append (m : Memory) (slices : List (List UInt8)) (c : NetCell) :
    Keeps [] m ⟨m.slices ++ slices, m.nets ++ [c]⟩ where
  slices := List.prefix_append _ _
  length := by simp
  cell p hp _ := by simp [cell, List.getElem?_append_left hp]

theorem cutSubnet_eq {m : Memory} (hm : m.WellFormed) {net2 : ℕ}
    (hnet2 : net2 < m.nets.length) (bit : ℕ) :
    m.cutSubnet net2 bit = (⟨m.slices ++ [(siblingSubnet (m.load net2) bit).mask,
          (siblingSubnet (m.load net2) bit).ip],
        m.nets ++ [⟨some (m.slices.length + 1), some m.slices.length⟩]⟩,
      [m.nets.length]) := by
  -- The exception reads the same at each point where it is loaded.
  have hload : ∀ slices c,
      load ⟨m.slices ++ slices, m.nets ++ [c]⟩ net2 = m.load net2 :=
    fun slices c => (keeps_append m slices c).load hm hnet2 (by simp)
  have hfirst := hload [] ⟨none, none⟩
  rw [List.append_nil] at hfirst
  simp only [cutSubnet, newNet, make, hfirst, cell_last, assign_last, hload]
  simp only [load, slice, flip, siblingSubnet, Nat.mul_comm]
  simp [modify_append_length_add]

theorem cutSubnet_yields {m : Memory} (hm : m.WellFormed) {net2 : ℕ}
    (hnet2 : net2 < m.nets.length) (given : List ℕ) (bit : ℕ) :
    Yields given m (m.cutSubnet net2 bit) [siblingSubnet (m.load net2) bit] := by
  rw [cutSubnet_eq hm hnet2]
  refine ⟨⟨?_, ?_⟩, keeps_append _ _ _, by simp, by simp, ?_⟩
  · intro c hc i hi
    rcases List.mem_append.mp hc with hc | hc
    · have hlt := hm.ip c hc i hi
      simp only [List.length_append]
      omega
    · rw [List.mem_singleton.mp hc] at hi
      simp only [Option.mem_some_iff] at hi
      simp only [List.length_append, List.length_cons, List.length_nil]
      omega
  · intro c hc i hi
    rcases List.mem_append.mp hc with hc | hc
    · have hlt := hm.mask c hc i hi
      simp only [List.length_append]
      omega
    · rw [List.mem_singleton.mp hc] at hi
      simp only [Option.mem_some_iff] at hi
      simp only [List.length_append, List.length_cons, List.length_nil]
      omega
  · simp [load, slice]

theorem subtractSubnet_yields {m : Memory} (hm : m.WellFormed)
    {net1 net2 : ℕ} (hnet1 : net1 < m.nets.length)
    (hnet2 : net2 < m.nets.length) :
    Yields [net1] m (m.subtractSubnet net1 net2)
      (Configurator.subtractSubnet id id (m.load net1) (m.load net2)) := by
  have hnone : Yields [net1] m (m, []) [] := Yields.self hm (by simp) (by simp)
  have hself : Yields [net1] m (m, [net1]) [m.load net1] :=
    Yields.self hm (by simp) (by simpa using hnet1)
  have hcuts : ∀ bits, Yields [net1] m (collect (cutSubnet · net2) bits m)
      (bits.map (siblingSubnet (m.load net2))) := by
    intro bits
    rw [← List.flatMap_singleton' (bits.map _), List.flatMap_map]
    refine collect_yields ?_ (Keeps.refl _ _) hm
    intro bit _ m' hkeeps hm'
    rw [← hkeeps.load hm hnet2 (by simp)]
    exact cutSubnet_yields hm' (hnet2.trans_le hkeeps.length) _ bit
  unfold subtractSubnet Configurator.subtractSubnet
  simp only [id_eq]
  split_ifs
  · exact hnone
  · exact hself
  · exact hnone
  · exact hself
  · exact hcuts _
  · exact hself

/-! ## The loop over the exceptions -/

theorem assign_wellFormed {m : Memory} (hm : m.WellFormed) {p q : ℕ}
    (hp : p < m.nets.length) : (m.assign q (m.cell p)).WellFormed := by
  have hmem : ∀ c ∈ m.nets.set q (m.cell p), c ∈ m.nets := by
    intro c hc
    rcases List.mem_or_eq_of_mem_set hc with hc | rfl
    · exact hc
    · simp [cell, hp]
  exact ⟨fun c hc => hm.ip c (hmem c hc), fun c hc => hm.mask c (hmem c hc)⟩

theorem assign_keeps (m : Memory) (q : ℕ) (c : NetCell) :
    Keeps [q] m (m.assign q c) where
  slices := List.prefix_rfl
  length := by simp [assign]
  cell p hp hnot := by
    have hne : q ≠ p := by simpa [eq_comm] using hnot
    simp [cell, assign, hne]

theorem load_assign {m : Memory} {p q : ℕ} (hq : q < m.nets.length) :
    (m.assign q (m.cell p)).load q = m.load p := by
  simp [load, cell, assign, slice, hq]

/-- The state of the loop after some exceptions: what was there at the start
is kept apart from the loop variable, and the subnets lead to `nets`. -/
structure Round (exceptVar : ℕ) (m₀ : Memory) (s : Memory × List ℕ)
    (nets : List IPNet) : Prop where
  wellFormed : s.1.WellFormed
  keeps : Keeps [exceptVar] m₀ s.1
  bound : ∀ p ∈ s.2, p < s.1.nets.length
  other : exceptVar ∉ s.2
  loads : s.2.map s.1.load = nets

theorem Round.takeExcept {exceptVar : ℕ} {m₀ : Memory} {s : Memory × List ℕ}
    {nets : List IPNet} (h : Round exceptVar m₀ s nets) (hm₀ : m₀.WellFormed)
    (hvar : exceptVar < m₀.nets.length) {except : ℕ}
    (hexcept : except < m₀.nets.length) (hne : except ≠ exceptVar) :
    Round exceptVar m₀ (takeExcept exceptVar s except) (nets.flatMap
        (Configurator.subtractSubnet id id · (m₀.load except))) := by
  have hlen := h.keeps.length
  have hassign := assign_keeps s.1 exceptVar (s.1.cell except)
  have hm := assign_wellFormed (q := exceptVar) h.wellFormed
    (hexcept.trans_le hlen)
  have hload : (s.1.assign exceptVar (s.1.cell except)).load exceptVar =
      m₀.load except := by
    rw [load_assign (hvar.trans_le hlen),
      h.keeps.load hm₀ hexcept (by simpa using hne)]
  have hnot : ∀ p ∈ s.2, p ∉ [exceptVar] := by
    intro p hp heq
    exact h.other (List.mem_singleton.mp heq ▸ hp)
  have hyields : Yields s.2 (s.1.assign exceptVar (s.1.cell except))
      (Memory.takeExcept exceptVar s except)
      (s.2.flatMap fun p => Configurator.subtractSubnet id id (s.1.load p)
        (m₀.load except)) := by
    refine collect_yields ?_ (Keeps.refl _ _) hm
    intro p hp m hkeeps hwf
    have hbound := (h.bound p hp).trans_le hassign.length
    have hp1 : m.load p = s.1.load p := by
      rw [hkeeps.load hm hbound (by simp),
        hassign.load h.wellFormed (h.bound p hp) (hnot p hp)]
    have hvar' := (hvar.trans_le hlen).trans_le hassign.length
    have hp2 : m.load exceptVar = m₀.load except := by
      rw [hkeeps.load hm hvar' (by simp), hload]
    have hstep := subtractSubnet_yields hwf (hbound.trans_le hkeeps.length)
      (hvar'.trans_le hkeeps.length)
    rw [hp1, hp2] at hstep
    refine ⟨hstep.wellFormed, hstep.keeps, fun p' hp' => ?_, hstep.bound,
      hstep.loads⟩
    refine (hstep.fresh p' hp').imp_left fun hmem => ?_
    rw [List.mem_singleton.mp hmem]
    exact hp
  refine ⟨hyields.wellFormed,
    (h.keeps.trans hassign).trans hyields.keeps.mono, hyields.bound, ?_, ?_⟩
  · intro hmem
    rcases hyields.fresh exceptVar hmem with hold | hnew
    · exact h.other hold
    · have hlength := hassign.length
      omega
  · rw [← h.loads, List.flatMap_map]
    exact hyields.loads

theorem Round.foldl {exceptVar : ℕ} {m₀ : Memory} {s : Memory × List ℕ}
    {nets : List IPNet} (h : Round exceptVar m₀ s nets) (hm₀ : m₀.WellFormed)
    (hvar : exceptVar < m₀.nets.length) {except : List ℕ}
    (hexcept : ∀ e ∈ except, e < m₀.nets.length ∧ e ≠ exceptVar) :
    Round exceptVar m₀ (except.foldl (Memory.takeExcept exceptVar) s)
      (subtractExcepts id id nets (except.map m₀.load)) := by
  induction except generalizing s nets with
  | nil => exact h
  | cons e except ih =>
      rw [List.forall_mem_cons] at hexcept
      exact ih (h.takeExcept hm₀ hvar hexcept.1.1 hexcept.1.2) hexcept.2

def loopVars (m : Memory) (network : ℕ) : Memory :=
  ((m.newNet (m.cell network)).1.newNet ⟨none, none⟩).1

theorem blockSubnets_eq (m : Memory) (network : ℕ) (except : List ℕ) :
    m.blockSubnets network except = except.foldl
      (takeExcept (m.nets.length + 1)) (m.loopVars network, [m.nets.length]) := by
  simp [blockSubnets, loopVars, newNet]

section LoopVars

theorem loopVars_length (m : Memory) (network : ℕ) :
    (m.loopVars network).nets.length = m.nets.length + 2 := by
  simp [loopVars, newNet]

theorem loopVars_keeps (m : Memory) (network : ℕ) :
    Keeps [] m (m.loopVars network) :=
  (newNet_keeps _ _).trans (newNet_keeps _ _)

variable {m : Memory} (hm : m.WellFormed) {network : ℕ}
  (hnetwork : network < m.nets.length)

include hm hnetwork

theorem loopVars_wellFormed : (m.loopVars network).WellFormed := by
  apply newNet_wellFormed _ (by simp) (by simp)
  exact newNet_wellFormed hm (hm.cell_ip hnetwork) (hm.cell_mask hnetwork)

theorem loopVars_load :
    (m.loopVars network).load m.nets.length = m.load network := by
  have hm₁ := newNet_wellFormed hm (hm.cell_ip hnetwork) (hm.cell_mask hnetwork)
  rw [loopVars, (newNet_keeps _ _).load hm₁ (by simp [newNet]) (by simp)]
  simp [load, newNet, slice]

theorem blockSubnets_round {except : List ℕ}
    (hexcept : ∀ e ∈ except, e < m.nets.length) :
    Round (m.nets.length + 1) (m.loopVars network) (m.blockSubnets network except)
      (subtractExcepts id id [m.load network] (except.map m.load)) := by
  have hlength := loopVars_length m network
  have hwf := loopVars_wellFormed hm hnetwork
  have hloads : except.map (m.loopVars network).load = except.map m.load := by
    apply List.map_congr_left
    intro e he
    exact (loopVars_keeps m network).load hm (hexcept e he) (by simp)
  have hstart : Round (m.nets.length + 1) (m.loopVars network)
      (m.loopVars network, [m.nets.length]) [m.load network] := by
    refine ⟨hwf, Keeps.refl _ _, ?_, by simp, ?_⟩
    · intro p hp
      rw [List.mem_singleton.mp hp, hlength]
      omega
    · simp [loopVars_load hm hnetwork]
  rw [blockSubnets_eq, ← hloads]
  apply hstart.foldl hwf (by omega)
  intro e he
  have hlt := hexcept e he
  omega

end LoopVars

/-- A call of `subtractSubnet`, and the loop over the exceptions of a block,
leave all networks as they are and return what has to remain, exactly when
the mapped block is not uncovered. -/
theorem subtraction_remains_iff {m : Memory} (hm : m.WellFormed)
    {net1 net2 : ℕ} (hnet1 : net1 < m.nets.length)
    (hnet2 : net2 < m.nets.length) (hcanonical1 : (m.load net1).Canonical)
    (hcanonical2 : (m.load net2).Canonical) {network : ℕ} {except : List ℕ}
    (hnetwork : network < m.nets.length)
    (hexcept : ∀ e ∈ except, e < m.nets.length)
    (hcanonical : (m.load network).Canonical)
    (hcanonicals : ∀ e ∈ except, (m.load e).Canonical) :
    (Keeps [] m (m.subtractSubnet net1 net2).1 ∧
      (Remains (m.load net1) [m.load net2] ((m.subtractSubnet net1 net2).2.map
          (m.subtractSubnet net1 net2).1.load) ↔
        ¬ (Encloses (m.load net1) ∧ Beside (m.load net2)))) ∧
    Keeps [] m (m.blockSubnets network except).1 ∧
      (Remains (m.load network) (except.map m.load)
          ((m.blockSubnets network except).2.map
            (m.blockSubnets network except).1.load) ↔
        ¬ (Encloses (m.load network) ∧
          uncoversMapped (except.map m.load) = true)) := by
  constructor
  · have hyields := subtractSubnet_yields hm hnet1 hnet2
    refine ⟨hyields.keeps, ?_⟩
    have hfold : Configurator.subtractSubnet id id (m.load net1)
        (m.load net2) = subtractExcepts id id [m.load net1] [m.load net2] := by
      simp [subtractExcepts]
    have hbeside : uncoversMapped [m.load net2] = true ↔
        Beside (m.load net2) := by
      have hnot : Beside (m.load net2) → ¬ Encloses (m.load net2) :=
        fun hbeside hencl => absurd hencl.1 (by have := hbeside.1; omega)
      by_cases hencl : Encloses (m.load net2)
      · simpa [uncoversMapped, hencl] using fun h => hnot h hencl
      · simp [uncoversMapped, hencl]
    rw [hyields.loads, hfold, remains_iff hcanonical1 (by simpa), hbeside]
  · have hkeeps := loopVars_keeps m network
    have hround := blockSubnets_round hm hnetwork hexcept
    refine ⟨⟨hkeeps.slices.trans hround.keeps.slices,
      hkeeps.length.trans hround.keeps.length, fun p hp _ => ?_⟩, ?_⟩
    · have hne : p ∉ [m.nets.length + 1] := by
        rw [List.mem_singleton]
        omega
      rw [hround.keeps.cell p (hp.trans_le hkeeps.length) hne,
        hkeeps.cell p hp (by simp)]
    · rw [hround.loads, remains_iff hcanonical]
      simpa using hcanonicals

/-- The networks `10.0.0.0/8`, `10.1.0.0/16` and `10.2.0.0/16`, the latter two
with one mask. -/
def privateNets : Memory where
  slices := [[10, 0, 0, 0], [255, 0, 0, 0], [10, 1, 0, 0], [255, 255, 0, 0],
    [10, 2, 0, 0]]
  nets := [⟨some 0, some 1⟩, ⟨some 2, some 3⟩, ⟨some 4, some 3⟩]

theorem subtraction_remains_iff_privateNets :
    (privateNets.subtractSubnet 0 1).2.length = 8 ∧
    Remains (privateNets.load 0) [privateNets.load 1]
      ((privateNets.subtractSubnet 0 1).2.map
        (privateNets.subtractSubnet 0 1).1.load) ∧
    Keeps [] privateNets (privateNets.blockSubnets 0 [1, 2]).1 ∧
    Remains (privateNets.load 0) [privateNets.load 1, privateNets.load 2]
      ((privateNets.blockSubnets 0 [1, 2]).2.map
        (privateNets.blockSubnets 0 [1, 2]).1.load) :=
  have hwf : privateNets.WellFormed := by
    constructor <;> simp [privateNets]
  have hiff := @subtraction_remains_iff privateNets hwf 0 1 (by decide)
    (by decide) (by decide) (by decide) 0 [1, 2] (by decide) (by decide)
    (by decide) (by decide)
  ⟨by decide +kernel, hiff.1.2.mpr (by decide), hiff.2.1,
    hiff.2.2.mpr (by decide)⟩

def uncovering : Memory where
  slices := [List.replicate 16 0, List.replicate 16 0, besideMapped.ip,
    besideMapped.mask]
  nets := [⟨some 0, some 1⟩, ⟨some 2, some 3⟩]

theorem uncovering_wellFormed : uncovering.WellFormed := by
  constructor <;> simp [uncovering]

/-- Cutting `::fffe:0:0/96` out of `::/0` leaves a network with all addresses
of IPv4, none of which is in `::/0`. -/
theorem not_remains_of_uncovering :
    (uncovering.load 0).Canonical ∧ (uncovering.load 1).Canonical ∧
      (uncovering.load 0).ip.length = (uncovering.load 1).ip.length ∧
      ¬ Remains (uncovering.load 0) [uncovering.load 1]
        ((uncovering.subtractSubnet 0 1).2.map
          (uncovering.subtractSubnet 0 1).1.load) ∧
      ¬ Remains (uncovering.load 0) ([1].map uncovering.load)
        ((uncovering.blockSubnets 0 [1]).2.map
          (uncovering.blockSubnets 0 [1]).1.load) := by
  have hnetwork : (uncovering.load 0).Canonical := by decide
  have hexcept : (uncovering.load 1).Canonical := by decide
  have hmapped : mappedBlock ∈ Configurator.subtractSubnet id id
      (uncovering.load 0) (uncovering.load 1) :=
    (mappedBlock_mem_subtractSubnet_iff hnetwork hexcept).mpr (by decide)
  have hnot : ∀ except pieces, mappedBlock ∈ pieces →
      ¬ Remains (uncovering.load 0) except pieces := by
    intro except pieces hmem h
    have hmiss : (uncovering.load 0).contains [10, 1, 1, 1] = false := by
      decide
    have hx := ((h.contains_iff [10, 1, 1, 1]).mp
      ⟨mappedBlock, hmem, by decide⟩).1
    rw [hmiss] at hx
    cases hx
  refine ⟨hnetwork, hexcept, by decide, hnot _ _ ?_, hnot _ _ ?_⟩
  · rw [(subtractSubnet_yields uncovering_wellFormed (by decide)
      (by decide)).loads]
    exact hmapped
  · rw [(blockSubnets_round uncovering_wellFormed (by decide) (by decide)).loads]
    simpa [subtractExcepts] using hmapped

end Memory

end ContivVPP.Configurator
