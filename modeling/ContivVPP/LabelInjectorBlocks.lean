import Mathlib.Data.List.Chain
import ContivVPP.LabelInjector
import ContivVPP.LineColumns
import ContivVPP.PartialLoops

/-!
# Blocks and inserted texts of the label injector

A block that is visited begins at the start of a line; it reaches to the end of
the document or ends with an end of line.  An inserted text consists of
complete lines in which no two dashes follow each other.
-/

namespace ContivVPP.LabelInjector

open TextSearch LineEdits PartialLoops

/-! ## Ends of lines -/

structure IsEol (eol : Text) (z : Char) : Prop where
  last : eol.getLast? = some z
  shape : eol = [z] ∨ ∃ y, y ≠ z ∧ eol = [y, z]
  chars : ∀ c ∈ eol, c = '\x0d' ∨ c = '\n'
  unbordered : Unbordered eol

theorem isEol_singleton {z : Char} (h : z = '\x0d' ∨ z = '\n') : IsEol [z] z := by
  refine ⟨rfl, .inl rfl, ?_, unbordered_singleton z⟩
  intro c hc
  rwa [List.mem_singleton.mp hc]

theorem exists_isEol {eol : Text} (h : eol ∈ [crlf, lf, cr]) :
    ∃ z, IsEol eol z := by
  simp only [List.mem_cons, List.not_mem_nil, or_false] at h
  rcases h with rfl | rfl | rfl
  · have hne : '\x0d' ≠ '\n' := by decide
    refine ⟨'\n', rfl, .inr ⟨'\x0d', hne, rfl⟩, ?_, unbordered_pair hne⟩
    intro c hc
    have hpair : c ∈ ['\x0d', '\n'] := hc
    simpa using hpair
  · exact ⟨'\n', isEol_singleton (.inr rfl)⟩
  · exact ⟨'\x0d', isEol_singleton (.inl rfl)⟩

def NoEol (line : Text) : Prop := '\x0d' ∉ line ∧ '\n' ∉ line

instance (line : Text) : Decidable (NoEol line) :=
  inferInstanceAs (Decidable (_ ∧ _))

variable {eol : Text} {z : Char}

theorem IsEol.ne_nil (h : IsEol eol z) : eol ≠ [] := h.unbordered.1

variable {line : Text} {c : Char}

theorem IsEol.not_mem_of_noEol (h : IsEol eol z) (hline : NoEol line)
    (hc : c ∈ line) : c ∉ eol := by
  intro hmem
  rcases h.chars c hmem with rfl | rfl
  · exact hline.1 hc
  · exact hline.2 hc

theorem IsEol.mem (h : IsEol eol z) : z ∈ eol :=
  List.mem_of_getLast? h.last

theorem IsEol.dash_not_mem (h : IsEol eol z) : '-' ∉ eol :=
  h.not_mem_of_noEol (by decide : NoEol ['-']) (List.mem_singleton.mpr rfl)

theorem IsEol.ne_dash (h : IsEol eol z) : z ≠ '-' := by
  rintro rfl
  exact h.dash_not_mem h.mem

def Joined (eol : Text) (a b : Char) : Prop :=
  ∀ y z, eol = [y, z] → (a = y ↔ b = z)

structure Closed (eol text : Text) : Prop where
  chain : text.IsChain (Joined eol)
  head : ∀ y z, eol = [y, z] → text.head? ≠ some z
  last : ∀ y z, eol = [y, z] → text.getLast? ≠ some y

def Cut (eol text : Text) : Prop :=
  ∀ y z, eol = [y, z] → text.getLast? ≠ some y

theorem closed_nil (eol : Text) : Closed eol [] := by
  constructor <;> simp

theorem Closed.append {a b : Text} (ha : Closed eol a) (hb : Closed eol b) :
    Closed eol (a ++ b) := by
  refine ⟨?_, ?_, ?_⟩
  · refine List.isChain_append.mpr ⟨ha.chain, hb.chain, ?_⟩
    intro c hc d hd y z heol
    refine iff_of_false ?_ ?_
    · rintro rfl
      exact ha.last c z heol hc
    · rintro rfl
      exact hb.head y d heol hd
  · intro y z heol
    cases a with
    | nil => exact hb.head y z heol
    | cons c a => exact ha.head y z heol
  · intro y z heol
    rw [List.getLast?_append]
    cases hlast : b.getLast? with
    | none => simpa using ha.last y z heol
    | some c => simpa [hlast] using hb.last y z heol

theorem Closed.of_append {a b : Text} (h : Closed eol (a ++ b))
    (hcut : Cut eol a) : Closed eol a ∧ Closed eol b := by
  obtain ⟨ha, hb, hjoin⟩ := List.isChain_append.mp h.chain
  refine ⟨⟨ha, ?_, hcut⟩, ⟨hb, ?_, ?_⟩⟩
  · intro y z heol
    cases a with
    | nil => simp
    | cons c a => exact h.head y z heol
  · intro y z heol hhead
    cases hlast : a.getLast? with
    | none =>
        rw [List.getLast?_eq_none_iff.mp hlast] at h
        exact h.head y z heol hhead
    | some c =>
        have hc : c = y := (hjoin c hlast z hhead y z heol).mpr rfl
        exact hcut y z heol (hc ▸ hlast)
  · intro y z heol hlast
    refine h.last y z heol ?_
    rw [List.getLast?_append, hlast, Option.some_or]

theorem closed_of_noEol (h : IsEol eol z) (hline : NoEol line) :
    Closed eol line := by
  have hout : ∀ c ∈ line, ∀ y z', eol = [y, z'] → c ≠ y ∧ c ≠ z' := by
    intro c hc y z' heol
    have hmem := h.not_mem_of_noEol hline hc
    rw [heol] at hmem
    simpa using hmem
  refine ⟨?_, ?_, ?_⟩
  · refine List.Pairwise.isChain (List.pairwise_of_forall_mem_list ?_)
    intro c hc d hd y z' heol
    exact iff_of_false (hout c hc y z' heol).1 (hout d hd y z' heol).2
  · intro y z' heol hhead
    exact (hout z' (List.mem_of_mem_head? hhead) y z' heol).2 rfl
  · intro y z' heol hlast
    exact (hout y (List.mem_of_getLast? hlast) y z' heol).1 rfl

theorem IsEol.closed (h : IsEol eol z) : Closed eol eol := by
  rcases h.shape with rfl | ⟨y, hne, rfl⟩
  · constructor <;> simp
  · refine ⟨?_, ?_, ?_⟩
    · simp [Joined]
    · rintro y' z' heq
      obtain ⟨rfl, rfl⟩ : y = y' ∧ z = z' := by simpa using heq
      simpa using hne
    · rintro y' z' heq
      obtain ⟨rfl, rfl⟩ : y = y' ∧ z = z' := by simpa using heq
      simpa using Ne.symm hne

theorem IsEol.cut_of_suffix (h : IsEol eol z) {a : Text} (ha : eol <:+ a) :
    Cut eol a := by
  obtain ⟨before, rfl⟩ := ha
  intro y z' heol
  rw [List.getLast?_append, h.last]
  obtain rfl : z' = z := by
    have hlast := h.last
    rw [heol] at hlast
    simpa using hlast
  rcases h.shape with hone | ⟨y', hne, htwo⟩
  · simp [heol] at hone
  · obtain ⟨rfl, -⟩ : y = y' ∧ z' = z' := by simpa [heol] using htwo
    simpa using Ne.symm hne

/-! ## Visited blocks -/

structure Located (document eol : Text) (b : Block)
    (before text after : Text) : Prop where
  document : document = before ++ (text ++ after)
  start : b.start = before.length
  stop : b.stop = before.length + text.length
  lineStart : LineStart eol before
  whole : after = [] ∨ eol <:+ text
  nonempty : text ≠ []

variable {document before text after : Text} {b : Block}

theorem located_root (h : document ≠ []) :
    Located document eol ⟨0, document.length⟩ [] document [] := by
  constructor <;> simp [LineStart, h]

theorem Located.str_eq (h : Located document eol b before text after) :
    b.str document = text := by
  have hlength : b.stop - b.start = text.length := by
    rw [h.stop, h.start]
    omega
  rw [Block.str, hlength, h.start, h.document, List.drop_left, List.take_left]

variable {part : Text}

theorem inner_of_mem_indexes {pattern : Pattern Char} {m : ℕ} (hc : c ∈ part)
    (hm : m ∈ indexes (literal eol ++ pattern ++ literal part) text) :
    ∃ t₁ t₂, text = t₁ ++ (eol ++ t₂) ∧ t₁.length = m ∧ c ∈ t₂ := by
  have hmatch := matches_of_mem_indexes hm
  rw [matches_append_iff, matches_append_iff, matches_literal_iff,
    matches_literal_iff] at hmatch
  obtain ⟨⟨⟨t₂, heol⟩, -⟩, hpart⟩ := hmatch
  refine ⟨text.take m, t₂, ?_, ?_, ?_⟩
  · rw [heol, List.take_append_drop]
  · have hlt : m < text.length := by
      by_contra hge
      have hnil : text.drop m = [] := List.drop_eq_nil_of_le (by omega)
      rw [hnil, List.drop_nil, List.prefix_nil] at hpart
      rw [hpart] at hc
      simp at hc
    rw [List.length_take]
    omega
  · have hdrop : (text.drop m).drop (literal eol ++ pattern).length <:+ t₂ := by
      rw [← heol, List.length_append, literal, List.length_map,
        ← List.drop_drop, List.drop_left]
      exact List.drop_suffix _ _
    exact hdrop.subset (hpart.subset hc)

theorem suffix_of_mem_of_not_mem {t₁ t₂ : Text} (h : eol <:+ t₁ ++ t₂)
    (hc : c ∈ t₂) (hout : c ∉ eol) : eol <:+ t₂ := by
  rcases List.suffix_or_suffix_of_suffix h (List.suffix_append t₁ t₂) with
    hsuffix | hsuffix
  · exact hsuffix
  · exact absurd (hsuffix.subset hc) hout

theorem Located.inner (heol : IsEol eol z)
    (h : Located document eol b before text after) {t₁ t₂ : Text}
    (htext : text = t₁ ++ (eol ++ t₂)) (hc : c ∈ t₂) (hout : c ∉ eol) {n : ℤ}
    {last : Char → Bool} {child : Block}
    (hchild : computeInnerBlockPosition text t₁.length n eol last = .ok child) :
    ∃ before' text' after', Located document eol
      ⟨b.start + child.start, b.start + child.stop⟩ before' text' after' := by
  obtain ⟨spaces, -, hrest⟩ := bind_eq_ok_iff.mp hchild
  have hdrop : text.drop (t₁.length + eol.length) = t₂ := by
    rw [htext, ← List.drop_drop, List.drop_left, List.drop_left]
  have hstart : eol <:+ before ++ (t₁ ++ eol) :=
    (List.suffix_append t₁ eol).trans (List.suffix_append _ _)
  rw [hdrop] at hrest
  cases hindex : index (literal eol ++ spaces ++ [last]) t₂ with
  | none =>
      rw [hindex] at hrest
      obtain rfl := Except.ok.inj hrest
      refine ⟨before ++ (t₁ ++ eol), t₂, after, ?_, ?_, ?_, .inr hstart, ?_,
        List.ne_nil_of_mem hc⟩
      · rw [h.document, htext]
        simp
      · simp [h.start]
      · simp only [h.start, htext, List.length_append]
        omega
      · refine h.whole.imp_right fun hsuffix => ?_
        rw [htext, ← List.append_assoc] at hsuffix
        exact suffix_of_mem_of_not_mem hsuffix hc hout
  | some i =>
      rw [hindex] at hrest
      obtain rfl := Except.ok.inj hrest
      obtain ⟨hle, hmatch⟩ := index_eq_some hindex
      rw [List.append_assoc, matches_append_iff, matches_literal_iff] at hmatch
      obtain ⟨t₃, ht₃⟩ := hmatch.1
      have ht₂ : t₂ = t₂.take i ++ eol ++ t₃ := by
        rw [List.append_assoc, ht₃, List.take_append_drop]
      have hi : (t₂.take i).length = i := List.length_take_of_le hle
      refine ⟨before ++ (t₁ ++ eol), t₂.take i ++ eol, t₃ ++ after, ?_, ?_,
        ?_, .inr hstart, .inr (List.suffix_append _ _), ?_⟩
      · rw [h.document, htext]
        nth_rewrite 1 [ht₂]
        simp
      · simp [h.start]
      · simp only [h.start, List.length_append, hi]
        omega
      · simp [heol.ne_nil]

def InDocument (document eol : Text) (i : TraversingInfo) : Prop :=
  ∃ before text after, Located document eol i.curBlock before text after

structure PlaceOn (document eol : Text) (path : List Text) (i : Place) :
    Prop where
  inDocument : InDocument document eol i.toTraversingInfo
  suffix : i.unresolvedPath <:+ path

variable {path : List Text}

theorem PlaceOn.cons {i : Place} (h : PlaceOn document eol path i) :
    PlaceOn document eol (part :: path) i :=
  ⟨h.inDocument, h.suffix.trans (List.suffix_cons part path)⟩

def Visible (eol part : Text) : Prop := ∃ c ∈ part, c ∉ eol

def Leads (document eol : Text) (path : List Text)
    (visit : TraversingInfo → Except String (List Place)) : Prop :=
  ∀ i places, InDocument document eol i → visit i = .ok places →
    ∀ p ∈ places, PlaceOn document eol path p

theorem inner_inDocument (heol : IsEol eol z) {i : TraversingInfo}
    (hi : InDocument document eol i) {pattern : Pattern Char}
    (hpart : Visible eol part) {m : ℕ}
    (hm : m ∈ indexes (literal eol ++ pattern ++ literal part)
      (i.curBlockStr document)) {n n' : ℤ} {last : Char → Bool} {child : Block}
    (hchild : computeInnerBlockPosition (i.curBlockStr document) m n eol
      last = .ok child) (part' : Text) :
    InDocument document eol (i.newDescending part' child n') := by
  obtain ⟨before, text, after, hlocated⟩ := hi
  obtain ⟨c, hc, hout⟩ := hpart
  rw [TraversingInfo.curBlockStr, hlocated.str_eq] at hm hchild
  obtain ⟨t₁, t₂, htext, rfl, hct₂⟩ := inner_of_mem_indexes hc hm
  exact hlocated.inner heol htext hct₂ hout hchild

theorem leads_handleBasicBlock (heol : IsEol eol z) {rest : List Text}
    {visit : TraversingInfo → Except String (List Place)}
    (hvisit : Leads document eol rest visit) (hpart : Visible eol part)
    (n : ℤ) :
    Leads document eol (part :: rest) fun i =>
      handleBasicBlock document eol part rest visit i n := by
  intro i places hi h
  obtain ⟨indentation, -, hloop⟩ := bind_eq_ok_iff.mp h
  dsimp only at hloop
  split at hloop
  · obtain rfl := Except.ok.inj hloop
    intro p hp
    rw [List.mem_singleton] at hp
    subst hp
    exact ⟨hi, List.suffix_refl _⟩
  · obtain ⟨nested, hmap, hflat⟩ := bind_eq_ok_iff.mp hloop
    obtain rfl := Except.ok.inj hflat
    intro p hp
    obtain ⟨found, hfound, hpfound⟩ := List.mem_flatten.mp hp
    obtain ⟨m, hm, hchild⟩ := (mem_of_mapM_eq_ok hmap found).mp hfound
    obtain ⟨child, hposition, hdescend⟩ := bind_eq_ok_iff.mp hchild
    exact (hvisit _ found (inner_inDocument heol hi hpart hm hposition part)
      hdescend p hpfound).cons

theorem leads_visitMappingItems (heol : IsEol eol z)
    {handle : TraversingInfo → ℤ → Except String (List Place)}
    (hhandle : ∀ n, Leads document eol path fun i => handle i n)
    (part : Text) :
    Leads document eol path (visitMappingItems document eol part handle) := by
  intro i places hi h
  have hminus : Visible eol minusIndentationCharacter :=
    ⟨'-', List.mem_singleton.mpr rfl, heol.dash_not_mem⟩
  obtain ⟨spaces, -, hloop⟩ := bind_eq_ok_iff.mp h
  obtain ⟨nested, hmap, hflat⟩ := bind_eq_ok_iff.mp hloop
  obtain rfl := Except.ok.inj hflat
  intro p hp
  obtain ⟨found, hfound, hpfound⟩ := List.mem_flatten.mp hp
  obtain ⟨m, hm, hitem⟩ := (mem_of_mapM_eq_ok hmap found).mp hfound
  obtain ⟨item, hposition, hdescend⟩ := bind_eq_ok_iff.mp hitem
  exact hhandle _ _ found
    (inner_inDocument heol hi hminus hm hposition part) hdescend p hpfound

theorem leads_traverse (heol : IsEol eol z)
    (hpath : ∀ part ∈ path, Visible eol part) :
    Leads document eol path (traverse document eol path).1 ∧
      ∀ n, Leads document eol path fun i =>
        (traverse document eol path).2 i n := by
  induction path with
  | nil =>
      refine ⟨fun i places hi h => ?_, fun n i places hi h => ?_⟩
      · obtain rfl := Except.ok.inj h
        intro p hp
        rw [List.mem_singleton] at hp
        subst hp
        exact ⟨hi, List.suffix_refl _⟩
      · cases h
  | cons part rest ih =>
      rw [List.forall_mem_cons] at hpath
      obtain ⟨hvisit, hhandle⟩ := ih hpath.2
      have hbasic := leads_handleBasicBlock heol hvisit hpath.1
      refine ⟨fun i places hi h => ?_, hbasic⟩
      simp only [traverse] at h
      split at h
      · exact fun p hp =>
          (leads_visitMappingItems heol hhandle part i places hi h p hp).cons
      · exact hbasic _ i places hi h

/-! ## Inserted texts -/

def NoDashes (line : Text) : Prop :=
  line.IsChain fun a b => ¬ (a = '-' ∧ b = '-')

instance (line : Text) : Decidable (NoDashes line) :=
  inferInstanceAs (Decidable (List.IsChain _ _))

structure PlainLine (line : Text) : Prop where
  noEol : NoEol line
  noDashes : NoDashes line

instance (line : Text) : Decidable (PlainLine line) :=
  decidable_of_iff (NoEol line ∧ NoDashes line)
    ⟨fun h => ⟨h.1, h.2⟩, fun h => ⟨h.1, h.2⟩⟩

structure Insertable (eol : Text) (z : Char) (x : Text) : Prop where
  quiet : Quiet '-' z x
  ends : eol <:+ x
  closed : Closed eol x

theorem Insertable.ne_nil {x : Text} (h : Insertable eol z x) : x ≠ [] := by
  rintro rfl
  simpa using h.quiet.last

theorem isChain_replicate_append {n : ℕ} (h : NoDashes line) :
    NoDashes (List.replicate n ' ' ++ line) := by
  induction n with
  | zero => simpa using h
  | succ n ih =>
      rw [List.replicate_succ, List.cons_append]
      exact List.IsChain.cons ih fun c _ hc => by simp at hc

theorem IsEol.noDashes (h : IsEol eol z) : NoDashes eol := by
  rcases h.shape with rfl | ⟨y, -, rfl⟩
  · simp [NoDashes]
  · simp [NoDashes, h.ne_dash]

theorem insertable_line (h : IsEol eol z) (hline : PlainLine line) (n : ℕ) :
    NoDashes (List.replicate n ' ' ++ line ++ eol) ∧
      (List.replicate n ' ' ++ line ++ eol).getLast? = some z ∧
      Closed eol (List.replicate n ' ' ++ line ++ eol) := by
  have hspaces : NoEol (List.replicate n ' ') := by
    constructor <;> simp [List.mem_replicate]
  refine ⟨?_, ?_, ?_⟩
  · refine List.isChain_append.mpr ⟨isChain_replicate_append hline.noDashes,
      h.noDashes, ?_⟩
    intro c _ c' hc' hboth
    have hmem := List.mem_of_mem_head? hc'
    rw [hboth.2] at hmem
    exact h.dash_not_mem hmem
  · rw [List.getLast?_append, h.last, Option.some_or]
  · exact ((closed_of_noEol h hspaces).append
      (closed_of_noEol h hline.noEol)).append h.closed

theorem writeLine_insertable (h : IsEol eol z) {n : ℤ} {buffer buffer' : Text}
    (hline : PlainLine line)
    (hbuffer : buffer = [] ∧ line.head? ≠ some '-' ∧ line ≠ [] ∨
      Insertable eol z buffer)
    (hwrite : writeLine eol n buffer line = .ok buffer') :
    Insertable eol z buffer' := by
  obtain ⟨spaces, hspaces, hok⟩ := bind_eq_ok_iff.mp hwrite
  obtain rfl := Except.ok.inj hok
  have hreplicate : spaces = List.replicate n.toNat ' ' := by
    unfold stringsRepeat at hspaces
    split at hspaces
    · cases hspaces
    · exact (Except.ok.inj hspaces).symm
  subst hreplicate
  obtain ⟨hchain, hlast, hclosed⟩ := insertable_line h hline n.toNat
  rcases hbuffer with ⟨rfl, hhead, hne⟩ | hbuffer
  · refine ⟨⟨hchain, ?_, hlast⟩, List.suffix_append _ _, hclosed⟩
    cases n.toNat with
    | zero => simpa [hne] using hhead
    | succ k => simp [List.replicate_succ]
  · refine ⟨⟨?_, ?_, ?_⟩, ?_, hbuffer.closed.append hclosed⟩
    · refine List.isChain_append.mpr ⟨hbuffer.quiet.chain, hchain, ?_⟩
      intro c hc c' _ hboth
      have hz : z = c := by
        simpa [hbuffer.quiet.last] using hc
      exact h.ne_dash (hz.trans hboth.1)
    · rw [List.head?_append_of_ne_nil _ hbuffer.ne_nil]
      exact hbuffer.quiet.head
    · rw [List.getLast?_append, hlast, Option.some_or]
    · exact (List.suffix_append _ eol).trans (List.suffix_append _ _)

theorem foldlM_writeLine_insertable (h : IsEol eol z) {n : ℤ}
    {lines : List Text} (hlines : ∀ line ∈ lines, PlainLine line)
    {buffer x : Text} (hbuffer : Insertable eol z buffer)
    (hwrite : lines.foldlM (writeLine eol n) buffer = .ok x) :
    Insertable eol z x := by
  induction lines generalizing buffer with
  | nil =>
      obtain rfl := Except.ok.inj hwrite
      exact hbuffer
  | cons line lines ih =>
      rw [List.forall_mem_cons] at hlines
      rw [List.foldlM_cons] at hwrite
      obtain ⟨buffer', hfirst, hrest⟩ := bind_eq_ok_iff.mp hwrite
      exact ih hlines.2
        (writeLine_insertable h hlines.1 (.inr hbuffer) hfirst) hrest

theorem foldlM_writePathPart_insertable (h : IsEol eol z) {delta : ℤ}
    (hpath : ∀ part ∈ path, PlainLine part ∧ part.head? ≠ some '-' ∧ part ≠ [])
    {s s' : Text × ℤ} (hs : s.1 = [] ∨ Insertable eol z s.1)
    (hwrite : path.foldlM (writePathPart eol delta) s = .ok s') :
    s'.1 = [] ∨ Insertable eol z s'.1 := by
  induction path generalizing s with
  | nil =>
      obtain rfl := Except.ok.inj hwrite
      exact hs
  | cons part path ih =>
      rw [List.forall_mem_cons] at hpath
      rw [List.foldlM_cons] at hwrite
      obtain ⟨s₁, hfirst, hrest⟩ := bind_eq_ok_iff.mp hwrite
      obtain ⟨buffer, hline, hok⟩ := bind_eq_ok_iff.mp hfirst
      obtain rfl := Except.ok.inj hok
      obtain ⟨hplain, hhead, hne⟩ := hpath.1
      have hbuffer := writeLine_insertable h hplain
        (hs.imp_left fun hnil => ⟨hnil, hhead, hne⟩) hline
      exact ih hpath.2 (.inr hbuffer) hrest

structure PlainLines (lines : List Text) : Prop where
  first : ∃ line ∈ lines.head?, line.head? ≠ some '-' ∧ line ≠ []
  all : ∀ line ∈ lines, PlainLine line

theorem PlainLines.foldlM_insertable (h : IsEol eol z) {n : ℤ}
    {lines : List Text} (hlines : PlainLines lines) {buffer x : Text}
    (hbuffer : buffer = [] ∨ Insertable eol z buffer)
    (hwrite : lines.foldlM (writeLine eol n) buffer = .ok x) :
    Insertable eol z x := by
  obtain ⟨line, hline, hhead, hne⟩ := hlines.first
  obtain ⟨rest, rfl⟩ := List.head?_eq_some_iff.mp hline
  have hall := List.forall_mem_cons.mp hlines.all
  rw [List.foldlM_cons] at hwrite
  obtain ⟨buffer', hfirst, hrest⟩ := bind_eq_ok_iff.mp hwrite
  have hbuffer' := writeLine_insertable h hall.1
    (hbuffer.imp_left fun hnil => ⟨hnil, hhead, hne⟩) hfirst
  exact foldlM_writeLine_insertable h hall.2 hbuffer' hrest

def PlainPart (part : Text) : Prop :=
  PlainLine part ∧ part ≠ [] ∧
    (part ≠ minusIndentationCharacter → part.head? ≠ some '-')

instance (part : Text) : Decidable (PlainPart part) :=
  inferInstanceAs (Decidable (_ ∧ _))

structure Labels.Plain (labels : Labels) : Prop where
  path : ∀ part ∈ labels.path, PlainPart part
  lines : ∀ document i holds, labels.condition document i = .ok holds →
    PlainLines (if holds then labels.insertLines else labels.elseInsertLines)

theorem insertionAt_insertable (h : IsEol eol z) {labels : Labels}
    (hlabels : labels.Plain) {i : Place}
    (hi : PlaceOn document eol labels.path i)
    (hmapping : hasMappingInUresolvedPath i = false)
    {insertion : Insertion Char}
    (hinsertion : insertionAt document labels eol i = .ok insertion) :
    insertion.insertionPoint = insertPoint document eol i ∧
      Insertable eol z insertion.text := by
  obtain ⟨holds, hcondition, hrest⟩ := bind_eq_ok_iff.mp hinsertion
  obtain ⟨text, htext, hok⟩ := bind_eq_ok_iff.mp hrest
  obtain rfl := Except.ok.inj hok
  refine ⟨rfl, ?_⟩
  obtain ⟨s, hpath, hlines⟩ := bind_eq_ok_iff.mp htext
  have hparts : ∀ part ∈ i.unresolvedPath,
      PlainLine part ∧ part.head? ≠ some '-' ∧ part ≠ [] := by
    intro part hpart
    obtain ⟨hplain, hne, hhead⟩ := hlabels.path part (hi.suffix.subset hpart)
    refine ⟨hplain, hhead ?_, hne⟩
    rintro rfl
    rw [hasMappingInUresolvedPath, List.any_eq_false] at hmapping
    simpa using hmapping _ hpart
  exact (hlabels.lines document i holds hcondition).foldlM_insertable h
    (foldlM_writePathPart_insertable h hparts (.inl rfl) hpath) hlines

end ContivVPP.LabelInjector
