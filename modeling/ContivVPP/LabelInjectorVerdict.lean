import ContivVPP.LabelInjectorLines

/-!
# When the label injector only adds lines

The calls for one document one after another, then the documents of a content.
-/

namespace ContivVPP.LabelInjector

open TextSearch LineEdits PartialLoops

variable {regexp : Regexp} {params : InjectParams} {eol : Text} {z : Char}

/-! ## The labels of this repository -/

theorem plainPart_of_mem : ∀ part ∈ labelsPath ++ envPath, PlainPart part := by
  decide

theorem plainLines_of_mem {lines : List Text}
    (h : lines ∈ [ldPreloadLines, globalScopeLines, proxyLines,
      nonProxyLines, debugLines]) : PlainLines lines := by
  simp only [List.mem_cons, List.not_mem_nil, or_false] at h
  rcases h with rfl | rfl | rfl | rfl | rfl
  all_goals exact ⟨⟨_, rfl, by decide, by decide⟩, by decide⟩

theorem plain_always {path lines : List Text}
    (hpath : path ⊆ labelsPath ++ envPath)
    (hlines : lines ∈ [ldPreloadLines, globalScopeLines, proxyLines,
      nonProxyLines, debugLines]) : (Labels.always path lines).Plain := by
  refine ⟨fun part hpart => plainPart_of_mem part (hpath hpart),
    fun _ _ holds hholds => ?_⟩
  obtain rfl := Except.ok.inj hholds
  exact plainLines_of_mem hlines

theorem plain_proxyLabels (proxyName : Text) :
    (proxyLabels regexp proxyName eol).Plain := by
  refine ⟨fun part hpart =>
    plainPart_of_mem part (List.mem_append_right _ hpart),
    fun _ _ holds _ => ?_⟩
  cases holds with
  | true => exact plainLines_of_mem (by simp [proxyLabels])
  | false => exact plainLines_of_mem (by simp [proxyLabels])

theorem plain_of_mem_passes :
    ∀ labels ∈ passes regexp params eol, labels.Plain := by
  intro labels hlabels
  rcases List.mem_cons.mp hlabels with rfl | hlabels
  · exact plain_always (List.subset_append_left _ _) (by simp)
  · rcases List.mem_cons.mp hlabels with rfl | hlabels
    · split
      · exact plain_always (List.subset_append_right _ _) (by simp)
      · exact plain_proxyLabels params.proxyName
    · split at hlabels
      · obtain rfl := List.mem_singleton.mp hlabels
        exact plain_always (List.subset_append_right _ _) (by simp)
      · simp at hlabels

/-! ## The calls for a document -/

variable {document result before after : Text} {first : Prop}

theorem applied_ne_nil (h : document ≠ []) (is : List (Insertion Char)) :
    applied document is ≠ [] := by
  induction is generalizing document with
  | nil => exact h
  | cons i is ih =>
      refine ih (List.ne_nil_of_length_pos ?_)
      have hpos := List.length_pos_of_ne_nil h
      rw [Insertion.length_apply]
      omega

theorem exists_call (heol : IsEol eol z) {labels : Labels}
    (hlabels : labels.Plain) (hne : document ≠ [])
    (h : insertLinesConditioned document labels eol = .ok result) :
    ∃ places is, insertions document labels eol = .ok is ∧
      Found document labels eol z places is ∧
      result = applied document is := by
  obtain ⟨is, his, hok⟩ := bind_eq_ok_iff.mp h
  obtain ⟨places, hfound⟩ := exists_found heol hlabels hne his
  exact ⟨places, is, his, hfound, (Except.ok.inj hok).symm⟩

/-- The calls for the labels, each with the result of the one before. -/
def run (eol : Text) (ls : List Labels) (document : Text) : Except String Text :=
  ls.foldlM (fun document labels =>
    insertLinesConditioned document labels eol) document

theorem run_cons_eq_ok_iff {labels : Labels} {ls : List Labels} :
    run eol (labels :: ls) document = .ok result ↔
      ∃ document', insertLinesConditioned document labels eol =
        .ok document' ∧ run eol ls document' = .ok result := by
  rw [run, List.foldlM_cons]
  exact bind_eq_ok_iff

variable {ls : List Labels}

section

variable (heol : IsEol eol z) (hplain : ∀ l ∈ ls, l.Plain)
include heol hplain

theorem run_induction {P : Text → Prop}
    (hstep : ∀ {d labels places is}, Found d labels eol z places is →
      P d → P (applied d is))
    (hne : document ≠ []) (hrun : run eol ls document = .ok result)
    (h : P document) : result ≠ [] ∧ P result := by
  induction ls generalizing document with
  | nil =>
      obtain rfl := Except.ok.inj hrun
      exact ⟨hne, h⟩
  | cons labels ls ih =>
      rw [List.forall_mem_cons] at hplain
      obtain ⟨document', hcall, hrest⟩ := run_cons_eq_ok_iff.mp hrun
      obtain ⟨places, is, -, hfound, rfl⟩ :=
        exists_call heol hplain.1 hne hcall
      exact ih hplain.2 (applied_ne_nil hne is) hrest (hstep hfound h)

theorem run_ne_nil (hne : document ≠ [])
    (hrun : run eol ls document = .ok result) :
    result ≠ [] :=
  (run_induction heol hplain (P := fun _ => True) (fun _ _ => trivial)
    hne hrun trivial).1

theorem run_addsLines (hclosed : Closed eol document) (hne : document ≠ [])
    (hfits : EveryCall eol (CallFits eol first) ls document)
    (hrun : run eol ls document = .ok result)
    (hbefore : Preceding first before) :
    AddsLines eol (before ++ (document ++ after))
      (before ++ (result ++ after)) := by
  induction ls generalizing document with
  | nil =>
      obtain rfl := Except.ok.inj hrun
      exact .refl _ _
  | cons labels ls ih =>
      rw [List.forall_mem_cons] at hplain
      obtain ⟨document', hcall, hrest⟩ := run_cons_eq_ok_iff.mp hrun
      obtain ⟨hfirst, hlater⟩ := hfits
      have hlater' := hlater document' hcall
      obtain ⟨places, is, -, hfound, rfl⟩ :=
        exists_call heol hplain.1 hne hcall
      have hdesc := hfound.descending_iff.mpr (hfirst.ordered places hfound.found)
      exact (hfound.addsLines heol hclosed hfirst hbefore).trans
        (ih hplain.2 (hfound.closed_applied heol hclosed hdesc)
          (applied_ne_nil hne is) hlater' hrest)

theorem run_columns_le (hne : document ≠ [])
    (hrun : run eol ls document = .ok result) :
    columns '-' z 0 (before ++ (result ++ after)) ≤
      columns '-' z 0 (before ++ (document ++ after)) :=
  (run_induction heol hplain
    (P := fun d => columns '-' z 0 (before ++ (d ++ after)) ≤ _)
    (fun hfound h => (columns_applied_le heol hfound.texts).trans h)
    hne hrun le_rfl).2

/-- Insertions that are in place but not all at starts of lines move what
follows to a smaller column. -/
theorem run_columns_lt (hclosed : Closed eol document) (hne : document ≠ [])
    (hinPlace : EveryCall eol (CallInPlace eol) ls document)
    (hfits : ¬ EveryCall eol (CallFits eol first) ls document)
    (hrun : run eol ls document = .ok result)
    (hbefore : Preceding first before) :
    columns '-' z 0 (before ++ (result ++ '-' :: '-' :: after)) <
      columns '-' z 0 (before ++ (document ++ '-' :: '-' :: after)) := by
  induction ls generalizing document with
  | nil => exact absurd trivial hfits
  | cons labels ls ih =>
      rw [List.forall_mem_cons] at hplain
      obtain ⟨document', hcall, hrest⟩ := run_cons_eq_ok_iff.mp hrun
      obtain ⟨hfirst, hlater⟩ := hinPlace
      have hlater' := hlater document' hcall
      obtain ⟨places, is, his, hfound, rfl⟩ :=
        exists_call heol hplain.1 hne hcall
      have hdesc := (hfound.inPlace_iff heol hclosed).mp (hfirst is his)
      have hordered := hfound.descending_iff.mp hdesc
      by_cases hended : ∀ p ∈ places, Ended document eol first p
      · have hcallFits : CallFits eol first document labels := by
          constructor
          · intro places' hplaces'
            obtain rfl : places = places' :=
              Except.ok.inj (hfound.found.symm.trans hplaces')
            exact hordered
          · intro places' hplaces'
            obtain rfl : places = places' :=
              Except.ok.inj (hfound.found.symm.trans hplaces')
            exact hended
        have hrestFits : ¬ EveryCall eol (CallFits eol first) ls
            (applied document is) := by
          intro hrestFits
          refine hfits ⟨hcallFits, fun document'' hcall'' => ?_⟩
          obtain rfl : applied document is = document'' :=
            Except.ok.inj (hcall.symm.trans hcall'')
          exact hrestFits
        exact (ih hplain.2 (hfound.closed_applied heol hclosed hdesc)
          (applied_ne_nil hne is) hlater' hrestFits hrest).trans_le
          (columns_applied_le heol hfound.texts)
      · simp only [not_forall] at hended
        obtain ⟨p, hp, hnot⟩ := hended
        exact (run_columns_le heol hplain.2 (applied_ne_nil hne is)
          hrest).trans_lt
          (hfound.columns_lt heol hclosed hdesc hbefore hp hnot)

theorem everyCall_inPlace (hclosed : Closed eol document) (hne : document ≠ [])
    (hfits : EveryCall eol (CallFits eol first) ls document) :
    EveryCall eol (CallInPlace eol) ls document := by
  induction ls generalizing document with
  | nil => trivial
  | cons labels ls ih =>
      rw [List.forall_mem_cons] at hplain
      obtain ⟨hfirst, hlater⟩ := hfits
      refine ⟨fun is his => ?_, fun document' hcall => ?_⟩
      · obtain ⟨places, hfound⟩ := exists_found heol hplain.1 hne his
        exact (hfound.inPlace_iff heol hclosed).mpr
          (hfound.descending_iff.mpr (hfirst.ordered places hfound.found))
      · have hlater' := hlater document' hcall
        obtain ⟨places, is, -, hfound, rfl⟩ :=
          exists_call heol hplain.1 hne hcall
        have hdesc := hfound.descending_iff.mpr
          (hfirst.ordered places hfound.found)
        exact ih hplain.2 (hfound.closed_applied heol hclosed hdesc)
          (applied_ne_nil hne is) hlater'

end

/-! ## One document -/

theorem convert_of_isConverted (h : isConverted document = true) :
    convert regexp params eol document =
      run eol (passes regexp params eol) document := by
  have hkind : (isPod document || isDeployment document) = true := h
  rw [convert, if_pos hkind]
  by_cases hproxy : params.proxyName = [] <;>
    cases hdebug : params.useDebugLabel <;>
    simp [run, passes, insertLDPreloadTrue, insertAppScope, insertDebug,
      insertLines, hproxy, hdebug]

theorem convert_of_not_isConverted (h : isConverted document = false) :
    convert regexp params eol document = .ok document := by
  have hkind : ¬ (isPod document || isDeployment document) = true := by
    rw [isConverted] at h
    simp [h]
  rw [convert, if_neg hkind]
  rfl

theorem ne_nil_of_isConverted (h : isConverted document = true) :
    document ≠ [] := by
  rintro rfl
  revert h
  decide

def Document (regexp : Regexp) (params : InjectParams) (eol : Text)
    (P : Text → Labels → Prop) (document : Text) : Prop :=
  isConverted document = true →
    EveryCall eol P (passes regexp params eol) document

theorem convert_cases (h : convert regexp params eol document = .ok result) :
    (isConverted document = true ∧
      run eol (passes regexp params eol) document = .ok result) ∨
    result = document := by
  cases hkind : isConverted document with
  | true => exact Or.inl ⟨rfl, convert_of_isConverted hkind ▸ h⟩
  | false =>
      rw [convert_of_not_isConverted hkind] at h
      exact Or.inr (Except.ok.inj h).symm

theorem convert_ne_nil (heol : IsEol eol z)
    (h : convert regexp params eol document = .ok result)
    (hne : document ≠ []) : result ≠ [] := by
  rcases convert_cases h with ⟨_, hrun⟩ | rfl
  · exact run_ne_nil heol plain_of_mem_passes hne hrun
  · exact hne

theorem convert_nil : convert regexp params eol [] = .ok [] :=
  convert_of_not_isConverted (by decide)

theorem convert_addsLines (heol : IsEol eol z) (hclosed : Closed eol document)
    (hfits : Document regexp params eol (CallFits eol first) document)
    (h : convert regexp params eol document = .ok result)
    (hbefore : Preceding first before) :
    AddsLines eol (before ++ (document ++ after))
      (before ++ (result ++ after)) := by
  rcases convert_cases h with ⟨hkind, hrun⟩ | rfl
  · exact run_addsLines heol plain_of_mem_passes hclosed
      (ne_nil_of_isConverted hkind) (hfits hkind) hrun hbefore
  · exact .refl _ _

theorem convert_columns_le (heol : IsEol eol z)
    (h : convert regexp params eol document = .ok result) :
    columns '-' z 0 (before ++ (result ++ after)) ≤
      columns '-' z 0 (before ++ (document ++ after)) := by
  rcases convert_cases h with ⟨hkind, hrun⟩ | rfl
  · exact run_columns_le heol plain_of_mem_passes
      (ne_nil_of_isConverted hkind) hrun
  · exact le_rfl

theorem convert_columns_lt (heol : IsEol eol z) (hclosed : Closed eol document)
    (hinPlace : Document regexp params eol (CallInPlace eol) document)
    (hfits : ¬ Document regexp params eol (CallFits eol first) document)
    (h : convert regexp params eol document = .ok result)
    (hbefore : Preceding first before) :
    columns '-' z 0 (before ++ (result ++ '-' :: '-' :: after)) <
      columns '-' z 0 (before ++ (document ++ '-' :: '-' :: after)) := by
  obtain ⟨hkind, hcalls⟩ := Classical.not_imp.mp hfits
  rw [convert_of_isConverted hkind] at h
  exact run_columns_lt heol plain_of_mem_passes hclosed
    (ne_nil_of_isConverted hkind) (hinPlace hkind) hcalls h hbefore

/-! ## The documents of a content -/

def delimited (documents : List Text) : Text :=
  documents.flatMap fun document => documentDelimiter ++ document

variable {documents results : List Text}

theorem intercalate_eq_delimited (d : Text) (ds : List Text) :
    documentDelimiter.intercalate (d :: ds) = d ++ delimited ds := by
  induction ds generalizing d with
  | nil => simp [delimited]
  | cons e ds ih =>
      rw [List.intercalate_cons_cons, ih]
      simp [delimited]

theorem delimited_append_eq (ds : List Text) :
    ∃ rest, delimited ds ++ documentDelimiter = '-' :: '-' :: rest := by
  cases ds with
  | nil => exact ⟨['-'], rfl⟩
  | cons d ds =>
      exact ⟨'-' :: (d ++ delimited ds ++ documentDelimiter), by
        simp [delimited, documentDelimiter]⟩

theorem preceding_append (before : Text) :
    Preceding False (before ++ documentDelimiter) :=
  .inr ⟨not_false, before, rfl⟩

theorem append_delimited_cons (before d : Text) (ds : List Text) :
    before ++ delimited (d :: ds) =
      (before ++ documentDelimiter) ++ (d ++ delimited ds) := by
  simp [delimited]

theorem delimited_addsLines (heol : IsEol eol z)
    (h : List.Forall₂ (fun d d' => convert regexp params eol d = .ok d')
      documents results)
    (hclosed : ∀ d ∈ documents, Closed eol d)
    (hfits : ∀ d ∈ documents, Document regexp params eol (CallFits eol False) d) :
    AddsLines eol (before ++ delimited documents)
      (before ++ delimited results) := by
  induction h generalizing before with
  | nil => exact .refl _ _
  | @cons d d' ds ds' hd hds ih =>
      rw [List.forall_mem_cons] at hclosed hfits
      have hfirst : AddsLines eol
          ((before ++ documentDelimiter) ++ (d ++ delimited ds))
          ((before ++ documentDelimiter) ++ (d' ++ delimited ds)) :=
        convert_addsLines heol hclosed.1 hfits.1 hd (preceding_append before)
      have hrest := @ih (before ++ documentDelimiter ++ d') hclosed.2 hfits.2
      rw [append_delimited_cons, append_delimited_cons]
      refine hfirst.trans ?_
      rwa [← List.append_assoc, ← List.append_assoc]

def dashColumns (z : Char) (content : Text) : ℕ :=
  columns '-' z 0 (content ++ documentDelimiter)

theorem convert_dashColumns_le (heol : IsEol eol z)
    (h : convert regexp params eol document = .ok result) :
    dashColumns z (before ++ (result ++ after)) ≤
      dashColumns z (before ++ (document ++ after)) := by
  have hle := @convert_columns_le regexp params eol z document result before
    (after ++ documentDelimiter) heol h
  simpa only [dashColumns, List.append_assoc] using hle

theorem convert_dashColumns_lt (heol : IsEol eol z)
    (hclosed : Closed eol document)
    (hinPlace : Document regexp params eol (CallInPlace eol) document)
    (hfits : ¬ Document regexp params eol (CallFits eol first) document)
    (h : convert regexp params eol document = .ok result)
    (hbefore : Preceding first before) (ds : List Text) :
    dashColumns z (before ++ (result ++ delimited ds)) <
      dashColumns z (before ++ (document ++ delimited ds)) := by
  obtain ⟨rest, hrest⟩ := delimited_append_eq ds
  have hlt := @convert_columns_lt regexp params eol z document result before
    rest first heol hclosed hinPlace hfits h hbefore
  simpa only [dashColumns, List.append_assoc, hrest] using hlt

theorem delimited_columns_le (heol : IsEol eol z)
    (h : List.Forall₂ (fun d d' => convert regexp params eol d = .ok d')
      documents results) :
    dashColumns z (before ++ delimited results) ≤
      dashColumns z (before ++ delimited documents) := by
  induction h generalizing before with
  | nil => exact le_rfl
  | @cons d d' ds ds' hd hds ih =>
      have hrest := @ih (before ++ documentDelimiter ++ d')
      rw [append_delimited_cons, append_delimited_cons]
      refine le_trans ?_ (convert_dashColumns_le heol hd)
      rwa [← List.append_assoc, ← List.append_assoc]

theorem delimited_columns_lt (heol : IsEol eol z)
    (h : List.Forall₂ (fun d d' => convert regexp params eol d = .ok d')
      documents results)
    (hclosed : ∀ d ∈ documents, Closed eol d)
    (hinPlace : ∀ d ∈ documents, Document regexp params eol (CallInPlace eol) d)
    (hfits : ¬ ∀ d ∈ documents,
      Document regexp params eol (CallFits eol False) d) :
    dashColumns z (before ++ delimited results) <
      dashColumns z (before ++ delimited documents) := by
  induction h generalizing before with
  | nil => exact absurd (by simp) hfits
  | @cons d d' ds ds' hd hds ih =>
      rw [List.forall_mem_cons] at hclosed hinPlace hfits
      rw [append_delimited_cons, append_delimited_cons]
      by_cases hfits' : Document regexp params eol (CallFits eol False) d
      · refine lt_of_lt_of_le ?_ (convert_dashColumns_le heol hd)
        rw [← List.append_assoc, ← List.append_assoc]
        exact ih hclosed.2 hinPlace.2 fun hall => hfits ⟨hfits', hall⟩
      · refine lt_of_le_of_lt ?_ (convert_dashColumns_lt heol hclosed.1
          hinPlace.1 hfits' hd (preceding_append before) ds)
        rw [← List.append_assoc, ← List.append_assoc]
        exact delimited_columns_le heol hds

theorem dashColumns_delimiter_lt (z : Char) (t : Text) :
    dashColumns z t < dashColumns z (documentDelimiter ++ t) := by
  have hle := @columns_append_le Char _ '-' z 0 documentDelimiter
    (t ++ documentDelimiter)
  have hmono := @columns_mono Char _ '-' z 0
    (column z 0 documentDelimiter) (Nat.zero_le _) (t ++ documentDelimiter)
  have hpos : 0 < columns '-' z 0 documentDelimiter := by
    simp [documentDelimiter, columns]
  rw [dashColumns, dashColumns, List.append_assoc]
  omega

/-! ## Consistent contents -/

theorem closed_of_consistent (heol : IsEol eol z) {content : Text}
    (h : Consistent eol content) : Closed eol content := by
  obtain ⟨lines, rest, hno, rfl⟩ := h
  rw [List.forall_mem_cons] at hno
  refine Closed.append ?_ (closed_of_noEol heol hno.1)
  have hlines := hno.2
  clear hno
  induction lines with
  | nil => exact closed_nil eol
  | cons line lines ih =>
      rw [List.forall_mem_cons] at hlines
      rw [List.flatMap_cons]
      exact ((closed_of_noEol heol hlines.1).append heol.closed).append
        (ih hlines.2)

theorem Closed.cut_of_dash (heol : IsEol eol z) {a b : Text}
    (h : Closed eol (a ++ '-' :: b)) : Cut eol a := by
  intro y z' heq hlast
  have hjoin := (List.isChain_append.mp h.chain).2.2 y hlast '-' rfl
  have hdash : '-' = z' := (hjoin y z' heq).mp rfl
  refine heol.dash_not_mem ?_
  rw [heq, hdash]
  simp

theorem cut_documentDelimiter (heol : IsEol eol z) :
    Cut eol documentDelimiter := by
  intro y z' heq hlast
  have hdash : '-' = y := Option.some.inj hlast
  refine heol.dash_not_mem ?_
  rw [heq, hdash]
  simp

theorem Closed.of_delimited (heol : IsEol eol z) {d : Text} {ds : List Text}
    (h : Closed eol (d ++ delimited ds)) :
    Closed eol d ∧ ∀ d' ∈ ds, Closed eol d' := by
  induction ds generalizing d with
  | nil => simpa [delimited] using h
  | cons e ds ih =>
      rw [append_delimited_cons, List.append_assoc] at h
      obtain ⟨hd, hrest⟩ := h.of_append (h.cut_of_dash heol)
      have hrest' := (hrest.of_append (cut_documentDelimiter heol)).2
      rw [List.forall_mem_cons]
      exact ⟨hd, ih hrest'⟩

theorem Consistent.eol_of_mem {content : Text} (h : Consistent eol content)
    {c : Char} (hc : c ∈ content) (hend : c = '\x0d' ∨ c = '\n') :
    c ∈ eol ∧ eol <:+: content := by
  obtain ⟨lines, rest, hno, rfl⟩ := h
  have hnot : ∀ line ∈ rest :: lines, c ∉ line := by
    intro line hline
    rcases hend with rfl | rfl
    · exact (hno line hline).1
    · exact (hno line hline).2
  rw [List.forall_mem_cons] at hnot
  rcases List.mem_append.mp hc with hc | hc
  · obtain ⟨line, hline, hc⟩ := List.mem_flatMap.mp hc
    refine ⟨(List.mem_append.mp hc).resolve_left (hnot.2 line hline), ?_⟩
    obtain ⟨l₁, l₂, rfl⟩ := List.append_of_mem hline
    refine ⟨l₁.flatMap (· ++ eol) ++ line, l₂.flatMap (· ++ eol) ++ rest, ?_⟩
    simp
  · exact absurd hc hnot.1

theorem index_isSome_iff {content : Text} :
    (index (literal eol) content).isSome = true ↔ eol <:+: content := by
  rw [Option.isSome_iff_ne_none, Ne, index_literal_eq_none_iff, not_not]

theorem detectEOLString_eq {content eol' : Text}
    (heol : eol ∈ [crlf, lf, cr]) (h : Consistent eol content)
    (hdetect : detectEOLString content = .ok eol') : eol' = eol := by
  have hfind : [crlf, lf, cr].find?
      (fun eol => (index (literal eol) content).isSome) = some eol' := by
    unfold detectEOLString at hdetect
    split at hdetect
    · rename_i hfind
      rw [hfind, Except.ok.inj hdetect]
    · cases hdetect
  have hmem := List.mem_of_find?_eq_some hfind
  have hsome := List.find?_some hfind
  have hoccurs : eol' <:+: content := index_isSome_iff.mp hsome
  obtain ⟨z', heol'⟩ := exists_isEol hmem
  have hfound : ∀ c ∈ eol', c ∈ eol ∧ eol <:+: content := fun c hc =>
    h.eol_of_mem (hoccurs.subset hc) (heol'.chars c hc)
  simp only [List.mem_cons, List.not_mem_nil, or_false] at heol
  rcases heol with rfl | rfl | rfl
  · -- The two characters are tried first.
    have hcrlf := index_isSome_iff.mpr (hfound z' heol'.mem).2
    simp only [List.find?_cons, hcrlf] at hfind
    exact (Option.some.inj hfind).symm
  · simp only [List.mem_cons, List.not_mem_nil, or_false] at hmem
    rcases hmem with rfl | rfl | rfl
    · exact absurd (hfound '\x0d' (by decide)).1 (by decide)
    · rfl
    · exact absurd (hfound '\x0d' (by decide)).1 (by decide)
  · simp only [List.mem_cons, List.not_mem_nil, or_false] at hmem
    rcases hmem with rfl | rfl | rfl
    · exact absurd (hfound '\n' (by decide)).1 (by decide)
    · exact absurd (hfound '\n' (by decide)).1 (by decide)
    · rfl

/-! ## The result -/

theorem exists_results {converted result : Text}
    (h : documents.foldlM (fun converted document => do
      let document ← convert regexp params eol document
      return writeDocument converted document) converted = .ok result) :
    ∃ results, List.Forall₂
        (fun d d' => convert regexp params eol d = .ok d') documents results ∧
      result = results.foldl writeDocument converted := by
  induction documents generalizing converted with
  | nil =>
      obtain rfl := Except.ok.inj h
      exact ⟨[], .nil, rfl⟩
  | cons d ds ih =>
      rw [List.foldlM_cons] at h
      obtain ⟨converted', hfirst, hrest⟩ := bind_eq_ok_iff.mp h
      obtain ⟨d', hd, hok⟩ := bind_eq_ok_iff.mp hfirst
      obtain rfl := Except.ok.inj hok
      obtain ⟨results, hresults, rfl⟩ := ih hrest
      exact ⟨d' :: results, .cons hd hresults, rfl⟩

theorem foldl_writeDocument {converted : Text} (h : converted ≠ [])
    (results : List Text) :
    results.foldl writeDocument converted = converted ++ delimited results := by
  induction results generalizing converted with
  | nil => simp [delimited]
  | cons d ds ih =>
      have hwrite : writeDocument converted d =
          converted ++ documentDelimiter ++ d := by
        simp [writeDocument, h]
      rw [List.foldl_cons, hwrite, ih (by simp [h]), append_delimited_cons,
        List.append_assoc]

theorem writeDocument_nil (d : Text) : writeDocument [] d = d := by
  simp [writeDocument]

theorem written_columns_le (heol : IsEol eol z)
    (h : List.Forall₂ (fun d d' => convert regexp params eol d = .ok d')
      documents results) :
    dashColumns z (results.foldl writeDocument []) ≤
      dashColumns z (documentDelimiter.intercalate documents) := by
  induction h with
  | nil => exact le_rfl
  | @cons d d' ds ds' hd hds ih =>
      rw [List.foldl_cons, writeDocument_nil, intercalate_eq_delimited]
      by_cases hnil : d = []
      · subst hnil
        rw [convert_nil] at hd
        obtain rfl := Except.ok.inj hd
        refine ih.trans ?_
        cases ds with
        | nil => exact le_rfl
        | cons e ds =>
            rw [append_delimited_cons, intercalate_eq_delimited]
            exact (dashColumns_delimiter_lt z _).le
      · rw [foldl_writeDocument (convert_ne_nil heol hd hnil)]
        refine (delimited_columns_le heol hds).trans ?_
        exact @convert_dashColumns_le _ _ _ _ _ _ [] _ heol hd

/-- A content that begins with a delimiter loses it. -/
theorem written_columns_lt (heol : IsEol eol z)
    (h : List.Forall₂ (fun d d' => convert regexp params eol d = .ok d')
      ([] :: documents) results) (hne : documents ≠ []) :
    dashColumns z (results.foldl writeDocument []) <
      dashColumns z (documentDelimiter.intercalate ([] :: documents)) := by
  obtain ⟨d', rest, hd, hrest, rfl⟩ := List.forall₂_cons_left_iff.mp h
  rw [convert_nil] at hd
  obtain rfl := Except.ok.inj hd
  rw [List.foldl_cons, writeDocument_nil,
    List.intercalate_cons_of_ne_nil hne, List.nil_append]
  exact (written_columns_le heol hrest).trans_lt (dashColumns_delimiter_lt z _)

structure Injected (regexp : Regexp) (params : InjectParams)
    (eol content result : Text) (d r : Text) (ds rs : List Text) : Prop where
  documents : split documentDelimiter content = d :: ds
  content : content = d ++ delimited ds
  first : convert regexp params eol d = .ok r
  later : List.Forall₂ (fun d d' => convert regexp params eol d = .ok d') ds rs
  result : result = (r :: rs).foldl writeDocument []
  closed : Closed eol d
  laterClosed : ∀ d' ∈ ds, Closed eol d'

variable {content d r : Text} {ds rs : List Text}

theorem exists_injected (heol : eol ∈ [crlf, lf, cr]) (hz : IsEol eol z)
    (hconsistent : Consistent eol content)
    (h : inject regexp params content = .ok result) :
    ∃ d r ds rs, Injected regexp params eol content result d r ds rs := by
  obtain ⟨eol', hdetect, hloop⟩ := bind_eq_ok_iff.mp h
  obtain rfl := detectEOLString_eq heol hconsistent hdetect
  obtain ⟨results, hresults, rfl⟩ := exists_results hloop
  obtain ⟨d, ds, hsplit⟩ := List.exists_cons_of_ne_nil
    (split_ne_nil documentDelimiter content)
  rw [hsplit] at hresults
  obtain ⟨r, rs, hr, hrs, rfl⟩ := List.forall₂_cons_left_iff.mp hresults
  have hcontent : content = d ++ delimited ds := by
    rw [← intercalate_eq_delimited, ← hsplit, intercalate_split]
  obtain ⟨hclosed, hlaterClosed⟩ := Closed.of_delimited hz
    (hcontent ▸ closed_of_consistent hz hconsistent)
  exact ⟨d, r, ds, rs, hsplit, hcontent, hr, hrs, rfl, hclosed, hlaterClosed⟩

theorem Injected.result_eq (hz : IsEol eol z)
    (h : Injected regexp params eol content result d r ds rs)
    (hd : d ≠ []) : result = r ++ delimited rs := by
  rw [h.result, List.foldl_cons, writeDocument_nil,
    foldl_writeDocument (convert_ne_nil hz h.first hd)]

theorem Injected.eq_nil_of_delimiter
    (h : Injected regexp params eol content result d r ds rs)
    (hleading : documentDelimiter <+: content) : d = [] ∧ ds ≠ [] := by
  obtain ⟨rest, hrest, hsplit⟩ :=
    split_of_leading (by decide : documentDelimiter ≠ []) hleading
  obtain ⟨rfl, rfl⟩ := List.cons.inj (h.documents.symm.trans hsplit)
  exact ⟨rfl, hrest⟩

theorem Injected.ne_nil_of_not_delimiter
    (h : Injected regexp params eol content result d r ds rs)
    (hleading : ¬ documentDelimiter <+: content) (hne : content ≠ []) :
    d ≠ [] := by
  rintro rfl
  cases ds with
  | nil => exact hne (by simpa [delimited] using h.content)
  | cons e ds =>
      refine hleading ⟨e ++ delimited ds, ?_⟩
      rw [h.content, append_delimited_cons]
      rfl

theorem content_ne_nil (h : inject regexp params content = .ok result) :
    content ≠ [] := by
  rintro rfl
  obtain ⟨eol, hdetect, -⟩ := bind_eq_ok_iff.mp h
  revert hdetect
  simp [show detectEOLString [] =
    .error "can't detect end of line characters" from rfl]

theorem injectable_iff (h : Injected regexp params eol content result d r ds rs) :
    Injectable regexp params eol content ↔ ¬ documentDelimiter <+: content ∧
        Document regexp params eol (CallFits eol True) d ∧
        ∀ d' ∈ ds, Document regexp params eol (CallFits eol False) d' := by
  constructor
  · intro hinj
    refine ⟨hinj.leading, ?_, fun d' hd' => ?_⟩
    · have hfits := hinj.fits 0 d (by rw [h.documents]; rfl)
      rwa [eq_self] at hfits
    · obtain ⟨k, hk⟩ := List.mem_iff_getElem?.mp hd'
      have hfits := hinj.fits (k + 1) d' (by rw [h.documents]; exact hk)
      rwa [eq_false (Nat.succ_ne_zero k)] at hfits
  · rintro ⟨hleading, hfirst, hlater⟩
    refine ⟨hleading, fun k d' hk => ?_⟩
    rw [h.documents] at hk
    cases k with
    | zero =>
        obtain rfl : d = d' := Option.some.inj hk
        rw [eq_self]
        exact hfirst
    | succ k =>
        rw [eq_false (Nat.succ_ne_zero k)]
        exact hlater d' (List.mem_of_getElem? hk)

theorem Injected.onlyAddsLines (hz : IsEol eol z)
    (h : Injected regexp params eol content result d r ds rs)
    (hd : d ≠ [])
    (hfirst : Document regexp params eol (CallFits eol True) d)
    (hlater : ∀ d' ∈ ds, Document regexp params eol (CallFits eol False) d') :
    OnlyAddsLines regexp params eol content result := by
  have hresult := h.result_eq hz hd
  refine ⟨?_, ⟨r :: rs, ?_, ?_⟩, ?_⟩
  · have hone : AddsLines eol (d ++ delimited ds) (r ++ delimited ds) :=
      @convert_addsLines _ _ _ _ _ _ [] _ _ hz h.closed hfirst h.first
        (.inl ⟨trivial, rfl⟩)
    rw [h.content, hresult]
    exact hone.trans (delimited_addsLines hz h.later h.laterClosed hlater)
  · rw [hresult, intercalate_eq_delimited]
  · have hkept : ∀ e e', convert regexp params eol e = .ok e' →
        isConverted e = false → e' = e := by
      intro e e' he hkind
      rw [convert_of_not_isConverted hkind] at he
      exact (Except.ok.inj he).symm
    rw [h.documents]
    exact .cons (hkept d r h.first) (h.later.imp hkept)
  · have hinPlace : ∀ first e, Closed eol e →
        Document regexp params eol (CallFits eol first) e →
        isConverted e = true →
        EveryCall eol (CallInPlace eol) (passes regexp params eol) e := by
      intro first e he hfits hkind
      exact everyCall_inPlace hz plain_of_mem_passes he
        (ne_nil_of_isConverted hkind) (hfits hkind)
    rw [h.documents, List.forall_mem_cons]
    exact ⟨hinPlace True d h.closed hfirst, fun d' hd' =>
      hinPlace False d' (h.laterClosed d' hd') (hlater d' hd')⟩

theorem Injected.fits_of_onlyAddsLines (hz : IsEol eol z)
    (h : Injected regexp params eol content result d r ds rs)
    (hd : d ≠ []) (honly : OnlyAddsLines regexp params eol content result) :
    Document regexp params eol (CallFits eol True) d ∧
      ∀ d' ∈ ds, Document regexp params eol (CallFits eol False) d' := by
  have hle : dashColumns z content ≤ dashColumns z result :=
    honly.lines.columns_le hz.ne_dash hz.last
  have hinPlace := honly.inPlace
  rw [h.documents, List.forall_mem_cons] at hinPlace
  rw [h.content, h.result_eq hz hd] at hle
  have hone : dashColumns z (r ++ delimited ds) ≤
      dashColumns z (d ++ delimited ds) :=
    @convert_dashColumns_le _ _ _ _ _ _ [] _ hz h.first
  constructor
  · by_contra hnot
    have hlt : dashColumns z (r ++ delimited ds) <
        dashColumns z (d ++ delimited ds) :=
      @convert_dashColumns_lt _ _ _ _ _ _ [] _ hz h.closed hinPlace.1 hnot
        h.first (.inl ⟨trivial, rfl⟩) ds
    have hrest : dashColumns z (r ++ delimited rs) ≤
        dashColumns z (r ++ delimited ds) := delimited_columns_le hz h.later
    omega
  · by_contra hnot
    have hlt : dashColumns z (r ++ delimited rs) <
        dashColumns z (r ++ delimited ds) :=
      delimited_columns_lt hz h.later h.laterClosed hinPlace.2 hnot
    omega

/-- The injection of a content whose lines all end alike only adds lines just
if the content does not begin with a delimiter, every block that gets lines
has an end of line (or the end of line is one character, and the block is not
the whole of a document after a delimiter), and the places are found from the
top to the bottom. -/
theorem inject_onlyAddsLines_iff (heol : eol ∈ [crlf, lf, cr])
    (hconsistent : Consistent eol content)
    (hinject : inject regexp params content = .ok result) :
    OnlyAddsLines regexp params eol content result ↔
      Injectable regexp params eol content := by
  obtain ⟨z, hz⟩ := exists_isEol heol
  obtain ⟨d, r, ds, rs, h⟩ := exists_injected heol hz hconsistent hinject
  rw [injectable_iff h]
  constructor
  · intro honly
    have hleading : ¬ documentDelimiter <+: content := by
      intro hleading
      obtain ⟨rfl, hne⟩ := h.eq_nil_of_delimiter hleading
      have hlt := written_columns_lt hz (.cons h.first h.later) hne
      have hle : dashColumns z content ≤ dashColumns z result :=
        honly.lines.columns_le hz.ne_dash hz.last
      rw [← h.result, intercalate_eq_delimited, ← h.content] at hlt
      omega
    have hd := h.ne_nil_of_not_delimiter hleading (content_ne_nil hinject)
    exact ⟨hleading, h.fits_of_onlyAddsLines hz hd honly⟩
  · rintro ⟨hleading, hfirst, hlater⟩
    have hd := h.ne_nil_of_not_delimiter hleading (content_ne_nil hinject)
    exact h.onlyAddsLines hz hd hfirst hlater

/-! ## Contents -/

def noRegexp : Regexp := fun _ _ => .ok false

def noParams : InjectParams := ⟨false, []⟩

theorem exists_ok {α : Type} {x : Except String α}
    (h : x.toOption.isSome = true) : ∃ a, x = .ok a := by
  cases x with
  | error e => simp [Except.toOption] at h
  | ok a => exact ⟨a, rfl⟩

theorem callFits_of_forall {labels : Labels}
    (h : ∀ places ∈ (insertionPlaces document labels eol).toOption,
      (places.Pairwise fun i j =>
        insertPoint document eol i ≤ insertPoint document eol j) ∧
      ∀ i ∈ places, Ended document eol first i) :
    CallFits eol first document labels := by
  constructor
  · intro places hplaces
    exact (h places (by rw [hplaces]; rfl)).1
  · intro places hplaces
    exact (h places (by rw [hplaces]; rfl)).2

instance (document eol : Text) (first : Prop) [Decidable first] (i : Place) :
    Decidable (Ended document eol first i) :=
  inferInstanceAs (Decidable (_ ∨ _))

def podContent : Text := "kind: Pod\nspec:\n  a: b\n".toList

theorem inject_podContent_onlyAddsLines :
    ∃ result, inject noRegexp noParams podContent = .ok result ∧
      OnlyAddsLines noRegexp noParams lf podContent result := by
  have hconsistent : Consistent lf podContent :=
    ⟨["kind: Pod".toList, "spec:".toList, "  a: b".toList], [], by decide,
      by decide⟩
  obtain ⟨result, hresult⟩ : ∃ result,
      inject noRegexp noParams podContent = .ok result :=
    exists_ok (by decide +kernel)
  refine ⟨result, hresult, (inject_onlyAddsLines_iff (by decide)
    hconsistent hresult).mpr ⟨by decide, fun k d hk _ => ?_⟩⟩
  have hsplit : split documentDelimiter podContent = [podContent] := by
    decide +kernel
  rw [hsplit] at hk
  cases k with
  | succ k => simp at hk
  | zero =>
      obtain rfl : podContent = d := Option.some.inj hk
      refine ⟨callFits_of_forall (by decide +kernel), fun d' hd' =>
        ⟨callFits_of_forall ?_, fun _ _ => trivial⟩⟩
      have hsecond : ∀ d' ∈ (insertLinesConditioned podContent
          (.always labelsPath ldPreloadLines) lf).toOption,
          ∀ places ∈ (insertionPlaces d'
            (.always envPath globalScopeLines) lf).toOption,
          (places.Pairwise fun i j =>
            insertPoint d' lf i ≤ insertPoint d' lf j) ∧
          ∀ i ∈ places, Ended d' lf (0 = 0) i := by
        decide +kernel
      exact hsecond d' (by rw [hd']; rfl)

def leadingContent : Text := "---\nkind: Service\n".toList

def unfinishedContent : Text := "kind: Pod\x0d\nspec:".toList

/-- The second `spec:` stands in the block of the first one, which leads to
the second `template:`; the second one does not. -/
def nestedContent : Text :=
  ("- kind: Pod\n  spec:\n    template:\n      x: y\n" ++
    "- spec:\n\n    template:\n      z: w\n").toList

theorem nestedContent_not_inPlace :
    ¬ CallInPlace lf nestedContent (.always labelsPath ldPreloadLines) := by
  intro h
  obtain ⟨is, his⟩ : ∃ is, insertions nestedContent
      (.always labelsPath ldPreloadLines) lf = .ok is :=
    exists_ok (by decide +kernel)
  have hbad : ∀ is ∈ (insertions nestedContent
      (.always labelsPath ldPreloadLines) lf).toOption,
      (∀ i ∈ is, i.text ≠ []) ∧
      (∀ i ∈ is, i.insertionPoint ≤ nestedContent.length) ∧
      ¬ is.Pairwise fun i j => j.insertionPoint ≤ i.insertionPoint := by
    decide +kernel
  obtain ⟨htext, hpoint, hdesc⟩ := hbad is (by rw [his]; rfl)
  exact hdesc ((inPlace_iff htext hpoint).mp (h is his))

/-- A delimiter is lost; a line is cut; labels are inserted in the middle of
other labels. -/
theorem inject_not_onlyAddsLines : (Consistent lf leadingContent ∧ ∃ result,
      inject noRegexp noParams leadingContent = .ok result ∧
      ¬ OnlyAddsLines noRegexp noParams lf leadingContent result) ∧
    (Consistent crlf unfinishedContent ∧ ∃ result,
      inject noRegexp noParams unfinishedContent = .ok result ∧
      ¬ OnlyAddsLines noRegexp noParams crlf unfinishedContent result) ∧
    (Consistent lf nestedContent ∧ ∃ result,
      inject noRegexp noParams nestedContent = .ok result ∧
      ¬ OnlyAddsLines noRegexp noParams lf nestedContent result) := by
  refine ⟨⟨?_, ?_⟩, ⟨?_, ?_⟩, ⟨?_, ?_⟩⟩
  · exact ⟨["---".toList, "kind: Service".toList], [], by decide, by decide⟩
  · refine ⟨"\nkind: Service\n".toList, by decide +kernel, fun h => ?_⟩
    exact absurd h.lines (by decide +kernel)
  · exact ⟨["kind: Pod".toList], "spec:".toList, by decide, by decide⟩
  · obtain ⟨result, hresult⟩ : ∃ result,
        inject noRegexp noParams unfinishedContent = .ok result :=
      exists_ok (by decide +kernel)
    have hbad : ∀ result ∈ (inject noRegexp noParams unfinishedContent).toOption,
        ¬ AddsLines crlf unfinishedContent result := by
      decide +kernel
    exact ⟨result, hresult, fun h =>
      hbad result (by rw [hresult]; rfl) h.lines⟩
  · exact ⟨["- kind: Pod".toList, "  spec:".toList, "    template:".toList,
      "      x: y".toList, "- spec:".toList, [], "    template:".toList,
      "      z: w".toList], [], by decide, by decide +kernel⟩
  · obtain ⟨result, hresult⟩ : ∃ result,
        inject noRegexp noParams nestedContent = .ok result :=
      exists_ok (by decide +kernel)
    refine ⟨result, hresult, fun h => ?_⟩
    have hsplit : split documentDelimiter nestedContent = [nestedContent] := by
      decide +kernel
    have hcalls := h.inPlace nestedContent (by rw [hsplit]; simp)
      (by decide +kernel)
    exact nestedContent_not_inPlace hcalls.1

end ContivVPP.LabelInjector
