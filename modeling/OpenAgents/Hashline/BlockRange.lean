import OpenAgents.Hashline.BlockExplicit
import OpenAgents.Hashline.HeaderText
import OpenAgents.Hashline.ApplyReference

/- Applying a patch with block hunks and applying its explicit form have the same
   outcome exactly when the parser's overlap check has nothing to say about the spans. -/
namespace Hashline
open JsText ExceptRun

section PatchText
variable (spanAt : Nat → Option BlockSpan)

/- The patch text with every resolvable block header written as an explicit range. -/
def explicitLine (line : JsString) : JsString :=
  match classifyKind (stripCarriageReturn line) with
  | .opBlock (.block anchor) =>
      match spanAt anchor.line with
      | some span => replaceHeader span
      | none => line
  | .opBlock (.deleteBlock anchor) =>
      match spanAt anchor.line with
      | some span => deleteHeader span
      | none => line
  | _ => line

def explicitPatch (diff : JsString) : JsString :=
  joinLines ((splitLines diff).map (explicitLine spanAt))

def lineTokens (lines : List JsString) : List Token :=
  let last := lines.getLastD []
  classifyFrom 1 lines.dropLast ++
    if last.isEmpty then [] else [classifyLine (stripCarriageReturn last) (1 + lines.dropLast.length)]

theorem tokenizeAll_lines (diff : JsString) : tokenizeAll diff = lineTokens (splitLines diff) := by
  cases diff with
  | nil => rfl
  | cons c rest =>
    simp only [tokenizeAll, Tokenizer.feed, Tokenizer.new, List.isEmpty_cons, Bool.false_eq_true,
      if_false, List.nil_append, Tokenizer.drainCompleteLines, Tokenizer.finish, lineTokens]
    split <;> rfl

theorem strip_replaceHeader (span : BlockSpan) :
    stripCarriageReturn (replaceHeader span) = replaceHeader span := by
  have colon : js ":" = [58] := by decide
  simp [stripCarriageReturn, replaceHeader, colon, carriageReturn]

theorem strip_deleteHeader {span : BlockSpan} (stop : 1 ≤ span.stop) :
    stripCarriageReturn (deleteHeader span) = deleteHeader span := by
  obtain ⟨early,last,digits,visible⟩ := rangeText_last span stop
  have other : last ≠ carriageReturn := by
    rintro rfl
    exact absurd visible (by decide)
  simp [stripCarriageReturn, deleteHeader, digits, other]

variable {spanAt} (ordered : ∀ n span, spanAt n = some span → 1 ≤ span.start ∧ span.start ≤ span.stop)
include ordered

theorem explicitLine_token (line : JsString) (lineNum : Nat) :
    classifyLine (stripCarriageReturn (explicitLine spanAt line)) lineNum =
      explicitToken spanAt (classifyLine (stripCarriageReturn line) lineNum) := by
  cases kind : classifyKind (stripCarriageReturn line) with
  | opBlock target =>
    cases target with
    | block anchor =>
      cases found : spanAt anchor.line with
      | none => simp [explicitLine, kind, found, classifyLine, explicitToken, explicitKind, explicitTarget]
      | some span =>
        obtain ⟨start,inOrder⟩ := ordered _ span found
        simp [explicitLine, kind, found, classifyLine, explicitToken, explicitKind, explicitTarget,
          strip_replaceHeader, classify_replaceHeader start (Nat.le_trans start inOrder)]
    | deleteBlock anchor =>
      cases found : spanAt anchor.line with
      | none => simp [explicitLine, kind, found, classifyLine, explicitToken, explicitKind, explicitTarget]
      | some span =>
        obtain ⟨start,inOrder⟩ := ordered _ span found
        have stop := Nat.le_trans start inOrder
        simp [explicitLine, kind, found, classifyLine, explicitToken, explicitKind, explicitTarget,
          strip_deleteHeader stop, classify_deleteHeader start stop]
    | _ => simp [explicitLine, kind, classifyLine, explicitToken, explicitKind, explicitTarget]
  | _ => simp [explicitLine, kind, classifyLine, explicitToken, explicitKind]

theorem classifyFrom_explicit (lineNum : Nat) (lines : List JsString) :
    classifyFrom lineNum (lines.map (explicitLine spanAt)) =
      (classifyFrom lineNum lines).map (explicitToken spanAt) := by
  induction lines generalizing lineNum with
  | nil => rfl
  | cons line lines ih =>
    simp only [List.map_cons, classifyFrom]
    rw [explicitLine_token ordered line lineNum, ih]

omit ordered in
theorem explicitLine_empty (line : JsString) : (explicitLine spanAt line).isEmpty = line.isEmpty := by
  cases line with
  | nil => rfl
  | cons c rest =>
    have replaceText : ∀ span, (replaceHeader span).isEmpty = false := by
      intro span
      have text : js "replace " = 114 :: js "eplace " := by decide
      simp [replaceHeader, text]
    have deleteText : ∀ span, (deleteHeader span).isEmpty = false := by
      intro span
      have text : js "delete " = 100 :: js "elete " := by decide
      simp [deleteHeader, text]
    simp only [explicitLine]
    split
    · split
      · exact replaceText _
      · rfl
    · split
      · exact deleteText _
      · rfl
    · rfl

omit ordered in
theorem explicitLine_one_line {line : JsString} (clean : lineFeed ∉ line) :
    lineFeed ∉ explicitLine spanAt line := by
  simp only [explicitLine]
  split
  · split
    · exact replaceHeader_one_line _
    · exact clean
  · split
    · exact deleteHeader_one_line _
    · exact clean
  · exact clean

theorem lineTokens_explicit (lines : List JsString) :
    lineTokens (lines.map (explicitLine spanAt)) = (lineTokens lines).map (explicitToken spanAt) := by
  cases lines.eq_nil_or_concat with
  | inl empty => simp [empty, lineTokens, classifyFrom]
  | inr parts =>
    obtain ⟨early,last,rfl⟩ := parts
    simp only [lineTokens, List.concat_eq_append, List.map_append, List.map_cons, List.map_nil,
      List.dropLast_concat, List.getLastD_concat, List.length_map, explicitLine_empty,
      classifyFrom_explicit ordered]
    split
    · rfl
    · simp [explicitLine_token ordered]

theorem explicitPatch_tokens (diff : JsString) :
    tokenizeAll (explicitPatch spanAt diff) = (tokenizeAll diff).map (explicitToken spanAt) := by
  have oneLine : ∀ line ∈ (splitLines diff).map (explicitLine spanAt), lineFeed ∉ line := by
    intro line mem
    obtain ⟨original,inside,rfl⟩ := List.mem_map.mp mem
    exact explicitLine_one_line (split_clean diff original inside)
  have nonempty : (splitLines diff).map (explicitLine spanAt) ≠ [] := by
    rw [ne_eq, List.map_eq_nil_iff]
    exact List.splitOn_ne_nil lineFeed diff
  rw [tokenizeAll_lines, tokenizeAll_lines, explicitPatch, split_join _ oneLine nonempty,
    lineTokens_explicit ordered]

end PatchText

/- What two hunks of one edit list delete. -/

def Edit.lineNum : Edit → Nat
  | .applied (.insert e) => e.lineNum
  | .applied (.delete d) => d.lineNum
  | .block b => b.lineNum

def targetedLines (spanAt : Nat → Option BlockSpan) : Edit → List Nat
  | .applied (.insert _) => []
  | .applied (.delete d) => [d.anchor.line]
  | .block b =>
      match spanAt b.anchor.line with
      | some span => spanLines span.start span.stop
      | none => []

def HunksOverlap (spanAt : Nat → Option BlockSpan) (edits : List Edit) : Prop :=
  ∃ e ∈ edits, ∃ f ∈ edits, e.lineNum ≠ f.lineNum ∧
    ∃ line, line ∈ targetedLines spanAt e ∧ line ∈ targetedLines spanAt f

def Deletes (edits : List Edit) (line lineNum : Nat) : Prop :=
  ∃ d ∈ edits.filterMap deleteEdit?, d.anchor.line = line ∧ d.lineNum = lineNum

theorem sourceLines_fold (deletes : List DeleteEdit) (line : Nat) (start : List Nat)
    (distinct : start.Nodup) :
    let lines := deletes.foldl (fun lines d =>
      if d.anchor.line = line && !lines.contains d.lineNum then lines ++ [d.lineNum] else lines) start
    lines.Nodup ∧ ∀ n, n ∈ lines ↔ n ∈ start ∨ ∃ d ∈ deletes, d.anchor.line = line ∧ d.lineNum = n := by
  induction deletes generalizing start with
  | nil => simp [distinct]
  | cons d deletes ih =>
    simp only [List.foldl_cons]
    by_cases fresh : (d.anchor.line = line && !start.contains d.lineNum) = true
    · obtain ⟨here,absent⟩ : d.anchor.line = line ∧ d.lineNum ∉ start := by simpa using fresh
      have grown : (start ++ [d.lineNum]).Nodup := by
        rw [List.nodup_append]
        exact ⟨distinct,by simp,by
          intro a mem b last
          obtain rfl : b = d.lineNum := by simpa using last
          exact fun same => absent (same ▸ mem)⟩
      rw [if_pos fresh]
      obtain ⟨nodup,members⟩ := ih _ grown
      refine ⟨nodup,fun n => ?_⟩
      rw [members]
      simp only [List.mem_append, List.mem_singleton, List.exists_mem_cons_iff, here, true_and,
        or_assoc, @eq_comm _ n d.lineNum]
    · rw [if_neg fresh]
      obtain ⟨nodup,members⟩ := ih _ distinct
      refine ⟨nodup,fun n => ?_⟩
      rw [members]
      have known : d.anchor.line = line → d.lineNum ∈ start := by simpa using fresh
      constructor
      · rintro (old | ⟨other,mem,hit⟩)
        · exact .inl old
        · exact .inr ⟨other,List.mem_cons_of_mem d mem,hit⟩
      · rintro (old | ⟨other,mem,here,rfl⟩)
        · exact .inl old
        · rcases List.mem_cons.mp mem with rfl | later
          · exact .inl (known here)
          · exact .inr ⟨other,later,here,rfl⟩

theorem two_distinct_iff {α : Type} {xs : List α} (distinct : xs.Nodup) :
    2 ≤ xs.length ↔ ∃ a ∈ xs, ∃ b ∈ xs, a ≠ b := by
  constructor
  · intro long
    refine ⟨xs[0],by simp,xs[1],by simp,fun same => ?_⟩
    have := (List.Nodup.getElem_inj_iff distinct).mp same
    omega
  · rintro ⟨a,memA,b,memB,other⟩
    rcases xs with _ | ⟨x,_ | ⟨y,rest⟩⟩
    · simp at memA
    · simp at memA memB
      exact absurd (memA.trans memB.symm) other
    · simp

theorem validate_ok_iff (edits : List Edit) :
    validateNoOverlappingDeletes edits = .ok () ↔
      ∀ line n m, Deletes edits line n → Deletes edits line m → n = m := by
  have members := fun line => sourceLines_fold (edits.filterMap deleteEdit?) line [] List.nodup_nil
  have found : overlappingAnchor (edits.filterMap deleteEdit?) = none ↔
      ∀ line n m, Deletes edits line n → Deletes edits line m → n = m := by
    rw [overlappingAnchor, List.find?_eq_none]
    constructor
    · intro clean line n m hit hit'
      by_contra other
      obtain ⟨d,mem,here,_⟩ := id hit
      refine clean line (List.mem_map.mpr ⟨d,mem,here⟩) ?_
      obtain ⟨distinct,all⟩ := members line
      rw [decide_eq_true_eq]
      exact (two_distinct_iff distinct).mpr ⟨n,(all n).mpr (.inr hit),m,(all m).mpr (.inr hit'),other⟩
    · intro single line _ many
      obtain ⟨distinct,all⟩ := members line
      rw [decide_eq_true_eq] at many
      obtain ⟨n,memN,m,memM,other⟩ := (two_distinct_iff distinct).mp many
      have hit := ((all n).mp memN).resolve_left List.not_mem_nil
      have hit' := ((all m).mp memM).resolve_left List.not_mem_nil
      exact other (single line n m hit hit')
  rw [← found, validateNoOverlappingDeletes]
  cases overlappingAnchor (edits.filterMap deleteEdit?) <;> simp

theorem deletes_bare (edits : List Edit) (line lineNum : Nat) :
    Deletes (edits.map bareEdit) line lineNum ↔ Deletes edits line lineNum := by
  have blind : ∀ edit, deleteEdit? (bareEdit edit) =
      (deleteEdit? edit).map fun d => { d with index := 0 } := by
    rintro ((e | d) | b) <;> rfl
  have mapped : (edits.map bareEdit).filterMap deleteEdit? =
      (edits.filterMap deleteEdit?).map fun d => { d with index := 0 } := by
    rw [List.filterMap_map, List.map_filterMap]
    exact List.filterMap_congr fun edit _ => blind edit
  simp only [Deletes, mapped, List.mem_map, exists_exists_and_eq_and]

theorem deletes_explicit (spanAt : Nat → Option BlockSpan) (edits : List Edit) (line lineNum : Nat) :
    Deletes (edits.flatMap (explicitEdits spanAt)) line lineNum ↔
      ∃ edit ∈ edits, line ∈ targetedLines spanAt edit ∧ edit.lineNum = lineNum := by
  have one : ∀ edit, (∃ d ∈ (explicitEdits spanAt edit).filterMap deleteEdit?,
      d.anchor.line = line ∧ d.lineNum = lineNum) ↔
        line ∈ targetedLines spanAt edit ∧ edit.lineNum = lineNum := by
    rintro ((e | d) | b)
    · simp [explicitEdits, bareEdit, cloneAppliedEdit, deleteEdit?, targetedLines]
    · simp [explicitEdits, bareEdit, cloneAppliedEdit, deleteEdit?, targetedLines, Edit.lineNum,
        @eq_comm _ line]
    · cases found : spanAt b.anchor.line with
      | none => simp [explicitEdits, found, bareEdit, deleteEdit?, targetedLines]
      | some span =>
        simp [explicitEdits, found, rangeEdits, List.filterMap_map, deleteEdit?, targetedLines,
          Edit.lineNum, List.mem_filterMap]
  simp only [Deletes, List.filterMap_flatMap, List.mem_flatMap]
  constructor
  · rintro ⟨d,⟨edit,mem,inside⟩,hit⟩
    exact ⟨edit,mem,(one edit).mp ⟨d,inside,hit⟩⟩
  · rintro ⟨edit,mem,hit⟩
    obtain ⟨d,inside,here⟩ := (one edit).mpr hit
    exact ⟨d,⟨edit,mem,inside⟩,here⟩

/-- The parser rejects the explicit form exactly when two hunks target one line. -/
theorem validate_explicit_iff {spanAt : Nat → Option BlockSpan} {edits explicit : List Edit}
    (same : explicit.map bareEdit = edits.flatMap (explicitEdits spanAt)) :
    validateNoOverlappingDeletes explicit = .ok () ↔ ¬HunksOverlap spanAt edits := by
  rw [validate_ok_iff]
  simp only [← deletes_bare explicit, same, deletes_explicit]
  constructor
  · rintro single ⟨e,memE,f,memF,other,line,hitE,hitF⟩
    exact other (single line e.lineNum f.lineNum ⟨e,memE,hitE,rfl⟩ ⟨f,memF,hitF,rfl⟩)
  · rintro clean line n m ⟨e,memE,hitE,rfl⟩ ⟨f,memF,hitF,rfl⟩
    by_contra other
    exact clean ⟨e,memE,f,memF,other,line,hitE,hitF⟩

/- Applying a whole patch: parse, expand the blocks against the text, apply. -/

def applyPatch (diff path text : JsString) (resolver : BlockResolver) : Except JsString ApplyResult := do
  let parsed ← parsePatch diff
  let edits ← resolveBlockEdits parsed.edits text path (some resolver) .throw
  applyEdits text edits

/- The resulting text, or `none` for a rejection. -/
def outcome : Except JsString ApplyResult → Option JsString
  | .ok result => some result.text
  | .error _ => none

def SpansInRange (resolver : BlockResolver) (path text : JsString) (edits : List Edit) : Prop :=
  ∀ b, .block b ∈ edits → ∃ span, resolver ⟨path,text,b.anchor.line⟩ = some span ∧
    1 ≤ span.start ∧ span.start ≤ b.anchor.line ∧ b.anchor.line ≤ span.stop ∧
    span.stop ≤ (splitLines text).length

def AnchorsExist (edits : List Edit) (text : JsString) : Prop :=
  ∀ edit, .applied edit ∈ edits → ∀ anchor ∈ getEditAnchors edit,
    1 ≤ anchor.line ∧ anchor.line ≤ (splitLines text).length

theorem rangeAt_ordered (resolver : BlockResolver) (path text : JsString) (line : Nat)
    (span : BlockSpan) (found : rangeAt resolver path text line = some span) :
    1 ≤ span.start ∧ span.start ≤ span.stop := by
  have checked := (Option.filter_eq_some_iff.mp found).2
  simpa using checked

theorem rangeAt_found {resolver : BlockResolver} {path text : JsString} {line : Nat}
    {span : BlockSpan} (found : resolver ⟨path,text,line⟩ = some span) (start : 1 ≤ span.start)
    (inOrder : span.start ≤ span.stop) : rangeAt resolver path text line = some span :=
  Option.filter_eq_some_iff.mpr ⟨found,by simp [start, inOrder]⟩

theorem map_mapIdx_blind {α β γ : Type} (f : Nat → α → β) (g : β → γ) (h : α → γ)
    (blind : ∀ i x, g (f i x) = h x) (xs : List α) : (xs.mapIdx f).map g = xs.map h := by
  apply List.ext_getElem
  · simp
  · intro i _ _
    simp [blind]

theorem expandBlock_bare (b : BlockEdit) (span : BlockSpan) (synthIndex : Nat) :
    (expandBlock b span synthIndex).map bareEdit =
      (rangeEdits b.payloads b.lineNum span).map .applied := by
  simp only [expandBlock, rangeEdits, List.map_append, List.map_map]
  congr 1
  · apply map_mapIdx_blind
    intro i payload
    rfl
  · apply map_mapIdx_blind
    intro i line
    rfl

section Resolution
variable {resolver : BlockResolver} {path text : JsString} {edits : List Edit}
  (spans : SpansInRange resolver path text edits)
include spans

theorem resolveFrom_explicit (synthIndex : Nat) :
    ∃ resolved, resolveFrom (some resolver) path text .throw synthIndex edits = .ok resolved ∧
      resolved.map bareEdit = edits.flatMap (explicitEdits (rangeAt resolver path text)) := by
  induction edits generalizing synthIndex with
  | nil => exact ⟨[],rfl,rfl⟩
  | cons edit edits ih =>
    have later : SpansInRange resolver path text edits :=
      fun b mem => spans b (List.mem_cons_of_mem edit mem)
    cases edit with
    | applied e =>
      obtain ⟨resolved,ran,same⟩ := ih later synthIndex
      refine ⟨.applied e :: resolved,?_,?_⟩
      · rw [resolveFrom]
        exact bind_ok.mpr ⟨resolved,ran,rfl⟩
      · rw [List.map_cons, same]
        rfl
    | block b =>
      obtain ⟨span,found,start,low,high,_⟩ := spans b (by simp)
      obtain ⟨resolved,ran,same⟩ := ih later (synthIndex + (expandBlock b span synthIndex).length)
      refine ⟨expandBlock b span synthIndex ++ resolved,?_,?_⟩
      · simp only [resolveFrom, resolveSpan, found]
        exact bind_ok.mpr ⟨resolved,ran,rfl⟩
      · rw [List.map_append, expandBlock_bare, same]
        simp [explicitEdits, rangeAt_found found start (Nat.le_trans low high)]

theorem explicit_applied :
    ∃ applied : List AppliedEdit,
      edits.flatMap (explicitEdits (rangeAt resolver path text)) = applied.map .applied ∧
      (InBounds applied (splitLines text) ↔ AnchorsExist edits text) := by
  induction edits with
  | nil => exact ⟨[],rfl,by simp [InBounds, AnchorsExist]⟩
  | cons edit edits ih =>
    obtain ⟨applied,flat,bounds⟩ := ih fun b mem => spans b (List.mem_cons_of_mem edit mem)
    cases edit with
    | applied e =>
      refine ⟨cloneAppliedEdit e 0 :: applied,by simp [explicitEdits, bareEdit, flat],?_⟩
      have anchors : getEditAnchors (cloneAppliedEdit e 0) = getEditAnchors e := by cases e <;> rfl
      have split : InBounds (cloneAppliedEdit e 0 :: applied) (splitLines text) ↔
          (∀ anchor ∈ getEditAnchors e, 1 ≤ anchor.line ∧ anchor.line ≤ (splitLines text).length) ∧
            InBounds applied (splitLines text) := by
        simp only [InBounds, List.forall_mem_cons, anchors]
      rw [split, bounds]
      constructor
      · rintro ⟨first,rest⟩ edit mem
        rcases List.mem_cons.mp mem with here | later
        · obtain rfl : edit = e := Edit.applied.inj here
          exact first
        · exact rest edit later
      · intro all
        exact ⟨all e (by simp),fun edit mem => all edit (List.mem_cons_of_mem _ mem)⟩
    | block b =>
      obtain ⟨span,found,start,low,high,inside⟩ := spans b (by simp)
      refine ⟨rangeEdits b.payloads b.lineNum span ++ applied,?_,?_⟩
      · simp [explicitEdits, rangeAt_found found start (Nat.le_trans low high), flat]
      have rangeInside : InBounds (rangeEdits b.payloads b.lineNum span) (splitLines text) := by
        intro edit mem anchor anchored
        rcases List.mem_append.mp mem with row | removed
        · obtain ⟨payload,_,rfl⟩ := List.mem_map.mp row
          obtain rfl : anchor = ⟨span.start⟩ := by simpa [getEditAnchors, getCursorAnchors] using anchored
          exact ⟨start,by simp only; omega⟩
        · obtain ⟨line,within,rfl⟩ := List.mem_map.mp removed
          obtain rfl : anchor = ⟨line⟩ := by simpa [getEditAnchors] using anchored
          have := List.mem_range'_1.mp within
          simp only
          omega
      have noAnchor : AnchorsExist (.block b :: edits) text ↔ AnchorsExist edits text := by
        simp [AnchorsExist]
      rw [noAnchor, ← bounds]
      simp only [InBounds, List.forall_mem_append]
      exact and_iff_right rangeInside

end Resolution

/- Applying depends on edits up to their index only. -/

theorem clone_bare (edits : List AppliedEdit) :
    cloneAppliedEdits (edits.map fun edit => cloneAppliedEdit edit 0) = cloneAppliedEdits edits := by
  have again : ∀ (edit : AppliedEdit) (index : Nat),
      cloneAppliedEdit (cloneAppliedEdit edit 0) index = cloneAppliedEdit edit index := by
    rintro (e | d) index <;> rfl
  simp only [cloneAppliedEdits, List.zipIdx_map, List.map_map]
  exact List.map_congr_left fun entry _ => again entry.1 entry.2

theorem mapM_bare (edits : List Edit) :
    (edits.map bareEdit).mapM appliedEdit? =
      (edits.mapM appliedEdit?).map (List.map fun edit => cloneAppliedEdit edit 0) := by
  induction edits with
  | nil => rfl
  | cons edit edits ih =>
    rw [List.map_cons, List.mapM_cons, List.mapM_cons, ih]
    cases edit with
    | block b => rfl
    | applied e => cases edits.mapM appliedEdit? <;> rfl

theorem applyEdits_bare (text : JsString) (edits : List Edit) :
    applyEdits text (edits.map bareEdit) = applyEdits text edits := by
  simp only [applyEdits, List.isEmpty_map, mapM_bare]
  cases edits.mapM appliedEdit? with
  | none => rfl
  | some applied => simp only [Option.map_some, applyResolved, clone_bare]

theorem applyEdits_congr {text : JsString} {edits edits' : List Edit}
    (same : edits.map bareEdit = edits'.map bareEdit) : applyEdits text edits = applyEdits text edits' := by
  rw [← applyEdits_bare, same, applyEdits_bare]

theorem outcome_none_iff (text : JsString) (edits : List AppliedEdit) :
    outcome (applyEdits text (edits.map .applied)) = none ↔ ¬InBounds edits (splitLines text) := by
  cases edits with
  | nil => simp [applyEdits, outcome, InBounds]
  | cons edit edits =>
    have resolved : applyEdits text ((edit :: edits).map .applied) =
        applyResolved text (edit :: edits) := by
      simp only [applyEdits, applied_only]
      rfl
    rw [resolved, ← cloned_bounds]
    simp only [applyResolved]
    cases checked : validateLineBounds (cloneAppliedEdits (edit :: edits)) (splitLines text) with
    | error message =>
      have outside : ¬InBounds (cloneAppliedEdits (edit :: edits)) (splitLines text) := by
        intro bounds
        rw [bounds_complete bounds] at checked
        contradiction
      simpa [outcome, bind, Except.bind] using outside
    | ok _ =>
      have inside := bounds_checked checked
      simpa [outcome, bind, Except.bind] using inside

theorem no_block_left {edits : List Edit} {applied : List AppliedEdit}
    (same : edits.map bareEdit = applied.map .applied) : hasBlockEdit edits = false := by
  rw [hasBlockEdit, List.any_eq_false]
  intro edit mem
  cases edit with
  | applied e => simp [Edit.isBlock]
  | block b =>
    have image : bareEdit (.block b) ∈ applied.map Edit.applied := by
      rw [← same]
      exact List.mem_map_of_mem mem
    simp [bareEdit] at image

theorem resolve_no_block {edits : List Edit} (none_left : hasBlockEdit edits = false)
    (text path : JsString) (resolver : BlockResolver) :
    resolveBlockEdits edits text path (some resolver) .throw = .ok edits := by
  simp [resolveBlockEdits, none_left]

theorem resolve_explicit {resolver : BlockResolver} {path text : JsString} {edits : List Edit}
    (spans : SpansInRange resolver path text edits) :
    ∃ resolved, resolveBlockEdits edits text path (some resolver) .throw = .ok resolved ∧
      resolved.map bareEdit = edits.flatMap (explicitEdits (rangeAt resolver path text)) := by
  by_cases blocks : hasBlockEdit edits = true
  · rw [resolveBlockEdits, if_pos blocks]
    exact resolveFrom_explicit spans 0
  · refine ⟨edits,resolve_no_block (by simpa using blocks) text path resolver,?_⟩
    have single : ∀ edit ∈ edits, explicitEdits (rangeAt resolver path text) edit = [bareEdit edit] := by
      intro edit mem
      cases edit with
      | applied e => rfl
      | block b => exact absurd (List.any_eq_true.mpr ⟨_,mem,rfl⟩) blocks
    rw [List.flatMap_congr single]
    exact List.map_eq_flatMap

/-- The block form and the explicit form of a parsed patch have the same outcome exactly
    when no two hunks target one line, or an explicit anchor is outside the file. -/
theorem block_matches_range_iff {diff path text : JsString} {resolver : BlockResolver}
    {parsed : ParseResult} (ok : parsePatch diff = .ok parsed)
    (spans : SpansInRange resolver path text parsed.edits) :
    outcome (applyPatch diff path text resolver) =
        outcome (applyPatch (explicitPatch (rangeAt resolver path text) diff) path text resolver) ↔
      ¬HunksOverlap (rangeAt resolver path text) parsed.edits ∨ ¬AnchorsExist parsed.edits text := by
  obtain ⟨resolved,ran,same⟩ := resolve_explicit spans
  obtain ⟨applied,flat,bounds⟩ := explicit_applied spans
  obtain ⟨edits,explicit,parsedExplicit⟩ := parseTokens_follows (rangeAt resolver path text)
    (fun n span found => (rangeAt_ordered resolver path text n span found).2) ok
  have blockForm : applyPatch diff path text resolver = applyEdits text (applied.map .applied) := by
    have bare : (applied.map Edit.applied).map bareEdit = applied.map Edit.applied := by
      rw [← flat, ← same, List.map_map]
      exact List.map_congr_left fun edit _ => by rcases edit with (e | d) | b <;> rfl
    have reached : applyPatch diff path text resolver = applyEdits text resolved := by
      simp only [applyPatch, ok, bind, Except.bind, ran]
    rw [reached]
    exact applyEdits_congr (by rw [same, flat, bare])
  have tokens : parsePatch (explicitPatch (rangeAt resolver path text) diff) =
      validateNoOverlappingDeletes edits >>= fun _ => .ok ⟨edits,parsed.warnings⟩ := by
    rw [parsePatch, explicitPatch_tokens (rangeAt_ordered resolver path text), parsedExplicit]
  have noBlock := no_block_left (explicit.trans flat)
  rw [← bounds, ← outcome_none_iff]
  by_cases overlap : HunksOverlap (rangeAt resolver path text) parsed.edits
  · have rejected : outcome
        (applyPatch (explicitPatch (rangeAt resolver path text) diff) path text resolver) = none := by
      cases checked : validateNoOverlappingDeletes edits with
      | ok _ => exact absurd overlap ((validate_explicit_iff explicit).mp checked)
      | error message => simp [applyPatch, tokens, checked, bind, Except.bind, outcome]
    rw [rejected, blockForm]
    simp [overlap]
  · have accepted : applyPatch (explicitPatch (rangeAt resolver path text) diff) path text resolver =
        applyPatch diff path text resolver := by
      have checked := (validate_explicit_iff explicit).mpr overlap
      have reached : applyPatch (explicitPatch (rangeAt resolver path text) diff) path text resolver =
          applyEdits text edits := by
        simp only [applyPatch, tokens, checked, bind, Except.bind, resolve_no_block noBlock]
      have bare : (applied.map Edit.applied).map bareEdit = applied.map Edit.applied := by
        rw [← flat, ← explicit, List.map_map]
        exact List.map_congr_left fun edit _ => by rcases edit with (e | d) | b <;> rfl
      rw [reached, blockForm]
      exact applyEdits_congr (by rw [explicit, flat, bare])
    simp [accepted, overlap]

def firstTwoLines : BlockResolver := fun _ => some ⟨1,2⟩

def overlappingPatch : JsString := js "replace block 1:\n+A\nreplace 2..2:\n+B"

/-- The block span swallows line 2, which the second hunk replaces too. -/
theorem overlapping_block_applied :
    (∃ parsed, parsePatch overlappingPatch = .ok parsed ∧
      SpansInRange firstTwoLines [] (js "a\nb") parsed.edits) ∧
      outcome (applyPatch overlappingPatch [] (js "a\nb") firstTwoLines) = some (js "A\nB") ∧
      outcome (applyPatch (explicitPatch (rangeAt firstTwoLines [] (js "a\nb")) overlappingPatch) []
        (js "a\nb") firstTwoLines) = none := by
  refine ⟨⟨⟨[.block ⟨⟨1⟩,[js "A"],1,0⟩, .applied (.insert ⟨.beforeAnchor ⟨2⟩,js "B",3,1,.replacement⟩),
    .applied (.delete ⟨⟨2⟩,3,2⟩)],[]⟩,by decide,?_⟩,by decide,by decide⟩
  intro b mem
  obtain rfl : b = ⟨⟨1⟩,[js "A"],1,0⟩ := by simpa using mem
  exact ⟨⟨1,2⟩,rfl,by decide⟩

def separatePatch : JsString := js "replace block 1:\n+A\ndelete 3"

theorem block_matches_range_separate :
    outcome (applyPatch separatePatch [] (js "a\nb\nc") firstTwoLines) =
      outcome (applyPatch (explicitPatch (rangeAt firstTwoLines [] (js "a\nb\nc")) separatePatch) []
        (js "a\nb\nc") firstTwoLines) := by
  have parsed : parsePatch separatePatch = .ok ⟨[.block ⟨⟨1⟩,[js "A"],1,0⟩,
      .applied (.delete ⟨⟨3⟩,3,1⟩)],[]⟩ := by decide
  refine (block_matches_range_iff parsed ?_).mpr (.inl ?_)
  · intro b mem
    obtain rfl : b = ⟨⟨1⟩,[js "A"],1,0⟩ := by simpa using mem
    exact ⟨⟨1,2⟩,rfl,by decide⟩
  · have span : rangeAt firstTwoLines [] (js "a\nb\nc") 1 = some ⟨1,2⟩ := by decide
    simp [HunksOverlap, targetedLines, Edit.lineNum, span, spanLines]

end Hashline
