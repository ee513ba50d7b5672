import ContivVPP.LabelInjectorBlocks

/-!
# The injector adds lines

When the result of the injection is the content with complete lines inserted.
An insertion that is not at the start of a line moves the next delimiter, or
the end of the content, to a smaller column, and so does the loss of the
delimiters at the beginning.  Nothing that is inserted makes up for this.
-/

namespace ContivVPP.LabelInjector

open TextSearch LineEdits PartialLoops

/-! ## What is claimed, and when it holds -/

def Consistent (eol content : Text) : Prop :=
  ∃ lines rest, (∀ line ∈ rest :: lines, NoEol line) ∧
    content = lines.flatMap (fun line => line ++ eol) ++ rest

def passes (regexp : Regexp) (params : InjectParams) (eol : Text) : List Labels :=
  .always labelsPath ldPreloadLines ::
    (if params.proxyName = [] then .always envPath globalScopeLines
      else proxyLabels regexp params.proxyName eol) ::
    if params.useDebugLabel then [.always envPath debugLines] else []

/-- A property of all calls that insert labels into a document, each with the
document that it gets. -/
def EveryCall (eol : Text) (P : Text → Labels → Prop) : List Labels → Text → Prop
  | [], _ => True
  | labels :: rest, document => P document labels ∧
      ∀ document', insertLinesConditioned document labels eol =
        .ok document' → EveryCall eol P rest document'

def CallInPlace (eol document : Text) (labels : Labels) : Prop :=
  ∀ is, insertions document labels eol = .ok is → InPlace document is

def isConverted (document : Text) : Bool :=
  isPod document || isDeployment document

/-- The result is the content with added lines, other documents are unchanged,
and the insertions are where they were computed. -/
structure OnlyAddsLines (regexp : Regexp) (params : InjectParams)
    (eol content result : Text) : Prop where
  lines : AddsLines eol content result
  documents : ∃ documents, result = documentDelimiter.intercalate documents ∧
      List.Forall₂ (fun d d' => isConverted d = false → d' = d)
        (split documentDelimiter content) documents
  inPlace : ∀ d ∈ split documentDelimiter content, isConverted d = true →
    EveryCall eol (CallInPlace eol) (passes regexp params eol) d

/-- The block has an end of line; or an end of line is one character, and the
block does not begin in the line of a delimiter. -/
def Ended (document eol : Text) (first : Prop) (i : Place) : Prop :=
  eol <:+: i.curBlockStr document ∨
    eol.length = 1 ∧ (first ∨ i.curBlock.start ≠ 0)

/-- The places that get lines are found from the top to the bottom, and their
blocks have ends of lines. -/
structure CallFits (eol : Text) (first : Prop) (document : Text)
    (labels : Labels) : Prop where
  ordered : ∀ places, insertionPlaces document labels eol = .ok places →
    places.Pairwise fun i j =>
      insertPoint document eol i ≤ insertPoint document eol j
  ended : ∀ places, insertionPlaces document labels eol = .ok places →
    ∀ i ∈ places, Ended document eol first i

structure Injectable (regexp : Regexp) (params : InjectParams)
    (eol content : Text) : Prop where
  leading : ¬ documentDelimiter <+: content
  fits : ∀ k d, (split documentDelimiter content)[k]? = some d →
    isConverted d = true →
      EveryCall eol (CallFits eol (k = 0)) (passes regexp params eol) d

/-! ## Insertion points -/

variable {eol document before text after : Text} {z : Char} {b : Block}

theorem Closed.not_mem {y : Char} (h : Closed [y, z] text)
    (hoccurs : ¬ [y, z] <:+: text) : y ∉ text ∧ z ∉ text := by
  constructor
  · intro hmem
    obtain ⟨u, v, rfl⟩ := List.append_of_mem hmem
    cases v with
    | nil => exact h.last y z rfl (by simp)
    | cons c v =>
        have hjoin := (List.isChain_cons_cons.mp
          (List.isChain_append.mp h.chain).2.1).1
        obtain rfl : c = z := (hjoin y z rfl).mp rfl
        exact hoccurs ⟨u, v, by simp⟩
  · intro hmem
    obtain ⟨u, v, rfl⟩ := List.append_of_mem hmem
    cases hlast : u.getLast? with
    | none =>
        rw [List.getLast?_eq_none_iff.mp hlast] at h
        exact h.head y z rfl rfl
    | some c =>
        have hjoin := (List.isChain_append.mp h.chain).2.2 c hlast z rfl
        obtain rfl : c = y := (hjoin y z rfl).mpr rfl
        obtain ⟨u', rfl⟩ := List.getLast?_eq_some_iff.mp hlast
        exact hoccurs ⟨u', v, by simp⟩

def GoodPoint (eol : Text) (first : Prop) (document : Text) (p : ℕ) : Prop :=
  eol <:+ document.take p ∨ document.take p = [] ∧ first

structure BadPoint (z : Char) (first : Prop) (document : Text) (p : ℕ) :
    Prop where
  after : z ∉ document.drop p
  before : (∃ a c, document.take p = a ++ [c] ∧ c ≠ z) ∨
    document.take p = [] ∧ ¬ first

theorem Located.point_of_some
    (h : Located document eol b before text after) {n : ℕ}
    (hindex : index (literal eol) text = some n) :
    n + eol.length + b.start ≤ document.length ∧
      eol <:+ document.take (n + eol.length + b.start) := by
  obtain ⟨t₁, t₂, htext, rfl⟩ := exists_of_index_literal hindex
  have hdocument : document = before ++ t₁ ++ eol ++ (t₂ ++ after) := by
    rw [h.document, htext]
    simp
  have hpoint : t₁.length + eol.length + b.start =
      (before ++ t₁ ++ eol).length := by
    simp only [h.start, List.length_append]
    omega
  rw [hpoint, hdocument, List.take_left]
  refine ⟨?_, List.suffix_append _ _⟩
  simp only [List.length_append]
  omega

theorem Located.document_of_none (h : Located document eol b before text after)
    (hoccurs : ¬ eol <:+: text) : document = before ++ text := by
  rcases h.whole with rfl | hsuffix
  · rw [h.document, List.append_nil]
  · exact absurd hsuffix.isInfix hoccurs

theorem cut_of_lineStart (heol : IsEol eol z) (h : LineStart eol before) :
    Cut eol before := by
  rcases h with rfl | hsuffix
  · intro y z' _
    simp
  · exact heol.cut_of_suffix hsuffix

structure PointOf (eol : Text) (z : Char) (document : Text) (i : Place)
    (first : Prop) : Prop where
  le : insertPoint document eol i ≤ document.length
  good : Ended document eol first i →
    GoodPoint eol first document (insertPoint document eol i)
  bad : ¬ Ended document eol first i →
    BadPoint z first document (insertPoint document eol i)
  cut : Cut eol (document.take (insertPoint document eol i))

variable {i : Place} {first : Prop}

theorem pointOf_of_infix (heol : IsEol eol z)
    (h : Located document eol i.curBlock before text after)
    (hoccurs : eol <:+: text) : PointOf eol z document i first := by
  have hstr : i.curBlockStr document = text := h.str_eq
  obtain ⟨n, hn⟩ : ∃ n, index (literal eol) text = some n := by
    rw [← Option.ne_none_iff_exists', Ne, index_literal_eq_none_iff]
    exact not_not.mpr hoccurs
  have hpoint : insertPoint document eol i =
      n + eol.length + i.curBlock.start := by
    simp only [insertPoint, hstr, hn]
  obtain ⟨hle, hsuffix⟩ := h.point_of_some hn
  rw [← hpoint] at hle hsuffix
  refine ⟨hle, fun _ => .inl hsuffix, fun hended => ?_,
    heol.cut_of_suffix hsuffix⟩
  exact absurd (.inl (hstr ▸ hoccurs)) hended

theorem insertPoint_of_not_infix
    (h : Located document eol i.curBlock before text after)
    (hoccurs : ¬ eol <:+: text) :
    insertPoint document eol i = eol.length - 1 + before.length := by
  have hstr : i.curBlockStr document = text := h.str_eq
  have hnone := index_literal_eq_none_iff.mpr hoccurs
  simp only [insertPoint, hstr, hnone, h.start]

theorem pointOf_of_not_infix_singleton (heol : IsEol [z] z)
    (h : Located document [z] i.curBlock before text after)
    (hoccurs : ¬ [z] <:+: text) : PointOf [z] z document i first := by
  have hstr : i.curBlockStr document = text := h.str_eq
  have hpoint := insertPoint_of_not_infix h hoccurs
  have hdocument := h.document_of_none hoccurs
  have htake : document.take (insertPoint document [z] i) = before := by
    rw [hpoint, hdocument]
    simp
  have hdrop : document.drop (insertPoint document [z] i) = text := by
    rw [hpoint, hdocument]
    simp
  refine ⟨?_, fun hended => ?_, fun hended => ?_, ?_⟩
  · rw [hpoint, hdocument]
    simp
  · rw [Ended, hstr] at hended
    obtain ⟨-, hplace⟩ := hended.resolve_left hoccurs
    rw [GoodPoint, htake]
    rcases h.lineStart with hnil | hsuffix
    · refine .inr ⟨hnil, hplace.resolve_right ?_⟩
      simp [h.start, hnil]
    · exact .inl hsuffix
  · rw [Ended, not_or, hstr] at hended
    have hplace := not_or.mp (not_and.mp hended.2 rfl)
    have hnil : before = [] := by
      rw [h.start, not_not] at hplace
      exact List.length_eq_zero_iff.mp hplace.2
    refine ⟨?_, .inr ⟨htake.trans hnil, hplace.1⟩⟩
    rw [hdrop]
    intro hmem
    obtain ⟨u, v, rfl⟩ := List.append_of_mem hmem
    exact hoccurs ⟨u, v, by simp⟩
  · rw [htake]
    exact cut_of_lineStart heol h.lineStart

theorem pointOf_of_not_infix_pair {y : Char} (heol : IsEol [y, z] z)
    (hclosed : Closed [y, z] document)
    (h : Located document [y, z] i.curBlock before text after)
    (hoccurs : ¬ [y, z] <:+: text) : PointOf [y, z] z document i first := by
  have hstr : i.curBlockStr document = text := h.str_eq
  have hpoint := insertPoint_of_not_infix h hoccurs
  have hdocument := h.document_of_none hoccurs
  have hcut := cut_of_lineStart heol h.lineStart
  obtain ⟨hy, hz⟩ :=
    ((hdocument ▸ hclosed).of_append hcut).2.not_mem hoccurs
  obtain ⟨c, t, rfl⟩ := List.exists_cons_of_ne_nil h.nonempty
  have htake : document.take (insertPoint document [y, z] i) = before ++ [c] := by
    rw [hpoint, hdocument, List.append_cons]
    exact List.take_left' (by simp; omega)
  have hdrop : document.drop (insertPoint document [y, z] i) = t := by
    rw [hpoint, hdocument, List.append_cons]
    exact List.drop_left' (by simp; omega)
  refine ⟨?_, fun hended => ?_, fun hended => ?_, ?_⟩
  · rw [hpoint, hdocument]
    simp
    omega
  · rw [Ended, hstr] at hended
    exact absurd (hended.resolve_left hoccurs).1 (by simp)
  · refine ⟨?_, .inl ⟨before, c, htake, ?_⟩⟩
    · rw [hdrop]
      exact fun hmem => hz (List.mem_cons_of_mem c hmem)
    · rintro rfl
      exact hz List.mem_cons_self
  · rw [htake]
    intro y' z' heq
    obtain ⟨rfl, rfl⟩ : y = y' ∧ z = z' := by simpa using heq
    rw [List.getLast?_concat]
    intro hc
    exact hy (Option.some.inj hc ▸ List.mem_cons_self)

theorem pointOf_of_not_infix (heol : IsEol eol z) (hclosed : Closed eol document)
    (h : Located document eol i.curBlock before text after)
    (hoccurs : ¬ eol <:+: text) : PointOf eol z document i first := by
  rcases heol.shape with rfl | ⟨y, hne, rfl⟩
  · exact pointOf_of_not_infix_singleton heol h hoccurs
  · exact pointOf_of_not_infix_pair heol hclosed h hoccurs

theorem pointOf_of_placeOn {path : List Text} (heol : IsEol eol z)
    (hclosed : Closed eol document) (h : PlaceOn document eol path i) :
    PointOf eol z document i first := by
  obtain ⟨before, text, after, hlocated⟩ := h.inDocument
  by_cases hoccurs : eol <:+: text
  · exact pointOf_of_infix heol hlocated hoccurs
  · exact pointOf_of_not_infix heol hclosed hlocated hoccurs

/-! ## One call -/

structure Found (document : Text) (labels : Labels) (eol : Text) (z : Char)
    (places : List Place) (is : List (Insertion Char)) : Prop where
  found : insertionPlaces document labels eol = .ok places
  points : is.map Insertion.insertionPoint =
    (places.map (insertPoint document eol)).reverse
  texts : ∀ i ∈ is, Insertable eol z i.text
  placeOn : ∀ i ∈ places, PlaceOn document eol labels.path i

variable {labels : Labels} {is : List (Insertion Char)} {places : List Place}

theorem Labels.Plain.visible (heol : IsEol eol z) (h : labels.Plain) :
    ∀ part ∈ labels.path, Visible eol part := by
  intro part hpart
  obtain ⟨hplain, hne, -⟩ := h.path part hpart
  obtain ⟨c, rest, rfl⟩ := List.exists_cons_of_ne_nil hne
  exact ⟨c, List.mem_cons_self,
    heol.not_mem_of_noEol hplain.noEol List.mem_cons_self⟩

theorem map_insertionPoint {found : List (Insertion Char)}
    (h : places.mapM (insertionAt document labels eol) = .ok found) :
    found.map Insertion.insertionPoint =
      places.map (insertPoint document eol) := by
  have hpoints : List.Forall₂
      (fun i p => Insertion.insertionPoint i = insertPoint document eol p)
      found places := by
    refine ((mapM_eq_ok_iff.mp h).imp fun place i hat => ?_).flip
    obtain ⟨holds, -, hrest⟩ := bind_eq_ok_iff.mp hat
    obtain ⟨text, -, hok⟩ := bind_eq_ok_iff.mp hrest
    obtain rfl := Except.ok.inj hok
    rfl
  rwa [← List.forall₂_eq_eq_eq, List.forall₂_map_left_iff,
    List.forall₂_map_right_iff]

theorem exists_found (heol : IsEol eol z) (hlabels : labels.Plain)
    (hdocument : document ≠ [])
    (h : insertions document labels eol = .ok is) :
    ∃ places, Found document labels eol z places is := by
  obtain ⟨places, hplaces, hrest⟩ := bind_eq_ok_iff.mp h
  obtain ⟨found, hfound, hok⟩ := bind_eq_ok_iff.mp hrest
  obtain rfl := Except.ok.inj hok
  obtain ⟨visited, hvisited, hfilter⟩ := bind_eq_ok_iff.mp hplaces
  obtain rfl := Except.ok.inj hfilter
  have hplaceOn : ∀ i ∈ visited, PlaceOn document eol labels.path i :=
    (leads_traverse heol (hlabels.visible heol)).1 _ visited
      ⟨_, _, _, located_root hdocument⟩ hvisited
  have hfiltered : ∀ i ∈ visited.filter (fun i => !hasMappingInUresolvedPath i),
      PlaceOn document eol labels.path i ∧
        hasMappingInUresolvedPath i = false := by
    intro i hi
    rw [List.mem_filter, Bool.not_eq_true'] at hi
    exact ⟨hplaceOn i hi.1, hi.2⟩
  refine ⟨_, hplaces, ?_, ?_, fun i hi => (hfiltered i hi).1⟩
  · rw [List.map_reverse, List.reverse_inj]
    exact map_insertionPoint hfound
  · intro i hi
    obtain ⟨place, hplace, hat⟩ :=
      (mem_of_mapM_eq_ok hfound i).mp (List.mem_reverse.mp hi)
    exact (insertionAt_insertable heol hlabels (hfiltered place hplace).1
      (hfiltered place hplace).2 hat).2

theorem Found.exists_place (h : Found document labels eol z places is)
    {i : Insertion Char} (hi : i ∈ is) :
    ∃ p ∈ places, i.insertionPoint = insertPoint document eol p := by
  have hmem : i.insertionPoint ∈ is.map Insertion.insertionPoint :=
    List.mem_map_of_mem hi
  rw [h.points, List.mem_reverse, List.mem_map] at hmem
  obtain ⟨p, hp, hpoint⟩ := hmem
  exact ⟨p, hp, hpoint.symm⟩

theorem Found.exists_insertion (h : Found document labels eol z places is)
    {p : Place} (hp : p ∈ places) :
    ∃ i ∈ is, i.insertionPoint = insertPoint document eol p := by
  have hmem : insertPoint document eol p ∈
      (places.map (insertPoint document eol)).reverse :=
    List.mem_reverse.mpr (List.mem_map_of_mem hp)
  rw [← h.points, List.mem_map] at hmem
  exact hmem

theorem Found.descending_iff (h : Found document labels eol z places is) :
    Descending is ↔ places.Pairwise fun i j =>
      insertPoint document eol i ≤ insertPoint document eol j := by
  have hmap : Descending is ↔ (is.map Insertion.insertionPoint).Pairwise
      fun p q => q ≤ p := by
    rw [List.pairwise_map]
    rfl
  rw [hmap, h.points, List.pairwise_reverse, List.pairwise_map]

section

variable (heol : IsEol eol z) (hclosed : Closed eol document)
  (h : Found document labels eol z places is)
include heol hclosed h

theorem Found.pointOf (first : Prop) {i : Insertion Char} (hi : i ∈ is) :
    ∃ p ∈ places, i.insertionPoint = insertPoint document eol p ∧
      PointOf eol z document p first := by
  obtain ⟨p, hp, hpoint⟩ := h.exists_place hi
  exact ⟨p, hp, hpoint, pointOf_of_placeOn heol hclosed (h.placeOn p hp)⟩

theorem Found.point_le : ∀ i ∈ is, i.insertionPoint ≤ document.length := by
  intro i hi
  obtain ⟨p, -, hpoint, hp⟩ := h.pointOf heol hclosed True hi
  rw [hpoint]
  exact hp.le

theorem Found.inPlace_iff : InPlace document is ↔ Descending is :=
  LineEdits.inPlace_iff (fun i hi => (h.texts i hi).ne_nil)
    (h.point_le heol hclosed)

end

def applied (document : Text) (is : List (Insertion Char)) : Text :=
  is.foldl (fun document i => i.apply document) document

theorem Found.applied_rel (heol : IsEol eol z) (hclosed : Closed eol document)
    (h : Found document labels eol z places is) (hdesc : Descending is)
    {R : Text → Text → Prop} (hrefl : ∀ d, R d d)
    (htrans : ∀ {d e f}, R d e → R e f → R d f)
    (hstep : ∀ i ∈ is, ∀ after, R (document.take i.insertionPoint ++ after)
        (document.take i.insertionPoint ++ (i.text ++ after))) :
    R document (applied document is) :=
  foldl_apply_rel hrefl htrans hdesc hstep
    fun i hi => ⟨h.point_le heol hclosed i hi, rfl⟩

theorem Found.closed_applied (heol : IsEol eol z) (hclosed : Closed eol document)
    (h : Found document labels eol z places is) (hdesc : Descending is) :
    Closed eol (applied document is) := by
  refine h.applied_rel heol hclosed hdesc
    (R := fun d e => Closed eol d → Closed eol e) (fun _ hd => hd)
    (fun hde hef hd => hef (hde hd)) ?_ hclosed
  intro i hi after hboth
  obtain ⟨p, -, hpoint, hp⟩ := h.pointOf heol hclosed True hi
  obtain ⟨hbefore, hafter⟩ := hboth.of_append (hpoint ▸ hp.cut)
  exact hbefore.append ((h.texts i hi).closed.append hafter)

def Preceding (first : Prop) (before : Text) : Prop :=
  first ∧ before = [] ∨ ¬ first ∧ ∃ t, before = t ++ documentDelimiter

theorem Found.addsLines (heol : IsEol eol z) (hclosed : Closed eol document)
    (h : Found document labels eol z places is)
    (hfits : CallFits eol first document labels)
    (hbefore : Preceding first before) :
    AddsLines eol (before ++ (document ++ after))
      (before ++ (applied document is ++ after)) := by
  have hdesc := h.descending_iff.mpr (hfits.ordered places h.found)
  refine h.applied_rel heol hclosed hdesc
    (R := fun d e => AddsLines eol (before ++ (d ++ after))
      (before ++ (e ++ after)))
    (fun _ => .refl _ _) (fun hde hef => hde.trans hef) ?_
  intro i hi rest
  obtain ⟨p, hp, hpoint, hpointOf⟩ := h.pointOf heol hclosed first hi
  have hgood := hpointOf.good (hfits.ended places h.found p hp)
  rw [← hpoint] at hgood
  have hstart : LineStart eol (before ++ document.take i.insertionPoint) := by
    rcases hgood with hsuffix | ⟨hnil, hfirst⟩
    · exact .inr (hsuffix.trans (List.suffix_append _ _))
    · rcases hbefore with ⟨-, rfl⟩ | ⟨hnot, -⟩
      · rw [hnil]
        exact .inl rfl
      · exact absurd hfirst hnot
  have hinsert : AddsLines eol
      ((before ++ document.take i.insertionPoint) ++ (rest ++ after))
      ((before ++ document.take i.insertionPoint) ++
        (i.text ++ (rest ++ after))) :=
    .insert heol.unbordered hstart (.inr (h.texts i hi).ends)
  simpa only [List.append_assoc] using hinsert

theorem append_apply {i : Insertion Char} :
    before ++ (i.apply document ++ after) =
      (before ++ document.take i.insertionPoint) ++
        (i.text ++ (document.drop i.insertionPoint ++ after)) := by
  simp only [Insertion.apply, List.append_assoc]

theorem append_take_drop (before document after : Text) (p : ℕ) :
    before ++ (document ++ after) =
      (before ++ document.take p) ++ (document.drop p ++ after) := by
  rw [List.append_assoc, ← List.append_assoc (document.take p),
    List.take_append_drop]

theorem columns_apply_le (heol : IsEol eol z) {i : Insertion Char}
    (hi : Insertable eol z i.text) :
    columns '-' z 0 (before ++ (i.apply document ++ after)) ≤
      columns '-' z 0 (before ++ (document ++ after)) := by
  rw [append_apply, append_take_drop before document _ i.insertionPoint]
  exact hi.quiet.columns_insert_le heol.ne_dash

theorem columns_applied_le (heol : IsEol eol z)
    (h : ∀ i ∈ is, Insertable eol z i.text) :
    columns '-' z 0 (before ++ (applied document is ++ after)) ≤
      columns '-' z 0 (before ++ (document ++ after)) := by
  induction is generalizing document with
  | nil => exact le_rfl
  | cons i is ih =>
      rw [List.forall_mem_cons] at h
      exact (ih h.2).trans (columns_apply_le heol h.1)

theorem GoodPoint.not_bad (heol : IsEol eol z) {p q : ℕ}
    (hgood : GoodPoint eol first document q)
    (hbad : BadPoint z first document p) (hpq : p ≤ q) : False := by
  obtain ⟨w, hw⟩ : document.take p <+: document.take q :=
    List.take_prefix_take_left hpq
  rcases hgood with ⟨u, hu⟩ | ⟨hnil, hfirst⟩
  · have hlast : (document.take p ++ w).getLast? = some z := by
      rw [hw, ← hu, List.getLast?_append, heol.last, Option.some_or]
    cases hwlast : w.getLast? with
    | none =>
        rw [List.getLast?_eq_none_iff.mp hwlast, List.append_nil] at hlast
        rcases hbad.before with ⟨a, c, htake, hc⟩ | ⟨htake, -⟩
        · rw [htake, List.getLast?_concat] at hlast
          exact hc (Option.some.inj hlast)
        · simp [htake] at hlast
    | some c =>
        rw [List.getLast?_append, hwlast, Option.some_or] at hlast
        have hdrop : document.drop p = w ++ document.drop q := by
          have hq := List.take_append_drop q document
          rw [← hw, List.append_assoc] at hq
          exact List.append_cancel_left
            ((List.take_append_drop p document).trans hq.symm)
        refine hbad.after ?_
        rw [hdrop, List.mem_append]
        exact .inl (List.mem_of_getLast? (hwlast.trans hlast))
  · rw [hnil] at hw
    have htake := (List.append_eq_nil_iff.mp hw).1
    rcases hbad.before with ⟨a, c, hconcat, -⟩ | ⟨-, hnot⟩
    · simp [htake] at hconcat
    · exact hnot hfirst

theorem BadPoint.column_pos {p : ℕ} (heol : IsEol eol z)
    (h : BadPoint z first document p) (hbefore : Preceding first before) :
    0 < column z 0 (before ++ document.take p) := by
  rcases h.before with ⟨a, c, htake, hc⟩ | ⟨hnil, hnot⟩
  · rw [htake, ← List.append_assoc]
    exact column_concat_pos hc
  · rcases hbefore with ⟨hfirst, -⟩ | ⟨-, t, rfl⟩
    · exact absurd hfirst hnot
    · have hdash : t ++ documentDelimiter = (t ++ ['-', '-']) ++ ['-'] := by
        simp [documentDelimiter]
      rw [hnil, List.append_nil, hdash]
      exact column_concat_pos heol.ne_dash.symm

theorem BadPoint.columns_lt (heol : IsEol eol z) {i : Insertion Char}
    (hi : Insertable eol z i.text)
    (h : BadPoint z first document i.insertionPoint)
    (hbefore : Preceding first before) :
    columns '-' z 0 (before ++ (i.apply document ++ '-' :: '-' :: after)) <
      columns '-' z 0 (before ++ (document ++ '-' :: '-' :: after)) := by
  rw [append_apply, append_take_drop before document _ i.insertionPoint]
  exact hi.quiet.columns_insert_lt heol.ne_dash (h.column_pos heol hbefore)
    h.after

theorem Found.columns_lt (heol : IsEol eol z) (hclosed : Closed eol document)
    (h : Found document labels eol z places is) (hdesc : Descending is)
    (hbefore : Preceding first before) {p : Place} (hp : p ∈ places)
    (hended : ¬ Ended document eol first p) :
    columns '-' z 0 (before ++ (applied document is ++ '-' :: '-' :: after)) <
      columns '-' z 0 (before ++ (document ++ '-' :: '-' :: after)) := by
  have hbad : BadPoint z first document (insertPoint document eol p) :=
    (pointOf_of_placeOn heol hclosed (h.placeOn p hp)).bad hended
  obtain ⟨j, hj, hjpoint⟩ := h.exists_insertion hp
  cases is with
  | nil => simp at hj
  | cons i is =>
      have htexts := List.forall_mem_cons.mp h.texts
      have hle : j.insertionPoint ≤ i.insertionPoint := by
        rcases List.mem_cons.mp hj with rfl | hj
        · exact le_rfl
        · exact (List.pairwise_cons.mp hdesc).1 j hj
      obtain ⟨q, -, hqpoint, hq⟩ :=
        h.pointOf heol hclosed first List.mem_cons_self
      have hfirst : BadPoint z first document i.insertionPoint := by
        rw [hqpoint]
        refine hq.bad fun hendedq => ?_
        refine (hq.good hendedq).not_bad heol hbad ?_
        rw [← hqpoint, ← hjpoint]
        exact hle
      exact (columns_applied_le heol htexts.2).trans_lt
        (hfirst.columns_lt heol htexts.1 hbefore)

end ContivVPP.LabelInjector
