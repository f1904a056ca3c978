import OpenAgents.Edit.Diff

/- A hunk as its lines, the text it is written as, and when the reader of diffs
   takes that text for exactly those lines. -/
namespace Edit
open JsText

inductive PatchLine where
  | context (text : JsString)
  | removed (text : JsString)
  | added (text : JsString)
  deriving DecidableEq, Repr

def PatchLine.text : PatchLine → JsString
  | .context text => text
  | .removed text => text
  | .added text => text

def PatchLine.render : PatchLine → JsString
  | .context text => space :: text
  | .removed text => minusUnit :: text
  | .added text => plusUnit :: text

def PatchLine.oldLine : PatchLine → Option JsString
  | .context text => some text
  | .removed text => some text
  | .added _ => none

def PatchLine.newLine : PatchLine → Option JsString
  | .context text => some text
  | .removed _ => none
  | .added text => some text

def PatchLine.isContext : PatchLine → Bool
  | .context _ => true
  | .removed _ => false
  | .added _ => false

structure PatchHunk where
  marker : Bool
  lines : List PatchLine
  oneLine : ∀ line ∈ lines, lineFeed ∉ line.text

namespace PatchHunk

def oldLines (hunk : PatchHunk) : List JsString := hunk.lines.filterMap PatchLine.oldLine
def newLines (hunk : PatchHunk) : List JsString := hunk.lines.filterMap PatchLine.newLine
def hasContext (hunk : PatchHunk) : Bool := hunk.lines.any PatchLine.isContext
def rows (hunk : PatchHunk) : List JsString := hunk.lines.map PatchLine.render
def diffLines (hunk : PatchHunk) : List JsString := (if hunk.marker then [emptyChangeContextMarker] else []) ++ hunk.rows
def diffText (hunk : PatchHunk) : JsString := joinLines hunk.diffLines

def parsed (hunk : PatchHunk) : DiffHunk :=
  ⟨none,none,none,hunk.hasContext,hunk.oldLines,hunk.newLines,false⟩

/- Blank lines before a hunk are skipped, and nothing is left of one that is all blank. -/
def opens : Bool → List JsString → Bool
  | true, rows => !rows.all isBlankLine
  | false, [] => false
  | false, first :: rest =>
      !isPatchWrapperLine (trim first) && !isBlankLine first &&
        !(startsWith (trim first) (js "@@") && rest.all isBlankLine)

/-- No line is taken for a file header, an elision, a patch wrapper or a numbered listing. -/
structure ReadAsWritten (hunk : PatchHunk) : Prop where
  kept : ∀ line ∈ hunk.lines, isKeptLine line.render = true
  notElided : ∀ line ∈ hunk.lines, isElision line.render = false
  notNumbered : looksNumbered hunk.oldLines hunk.newLines = false
  lastNotWrapper : ∀ line ∈ hunk.lines.getLast?, isPatchWrapperLine (trim line.render) = false
  opened : opens hunk.marker hunk.rows = true

end PatchHunk

theorem not_startsWith {s token : JsString} (nonempty : token ≠ []) (differs : s.head? ≠ token.head?) :
    startsWith s token = false := by
  cases token with
  | nil => exact absurd rfl nonempty
  | cons d token =>
    cases s with
    | nil => rfl
    | cons c s =>
      have other : ¬ d = c := by
        rintro rfl
        exact differs rfl
      simp [startsWith, List.isPrefixOf, other]

theorem visible_row {c : CodeUnit} (text : JsString) (visible : isWhitespace c = false) :
    (trim (c :: text)).head? = some c := by
  have start : trimStart (c :: text) = c :: text := by simp [trimStart, visible]
  have kept : trim (c :: text) ≠ [] := by
    rw [trim, start, trimEnd]
    intro blank
    rw [List.rdropWhile_eq_nil_iff] at blank
    simp [blank c List.mem_cons_self] at visible
  have front : trim (c :: text) <+: c :: text := by
    rw [trim, start, trimEnd]
    exact List.rdropWhile_prefix isWhitespace (c :: text)
  cases trimmed : trim (c :: text) with
  | nil => exact absurd trimmed kept
  | cons d rest =>
    rw [trimmed, List.cons_prefix_cons] at front
    rw [front.1, List.head?_cons]

namespace PatchLine

def lead : PatchLine → CodeUnit
  | .context _ => space
  | .removed _ => minusUnit
  | .added _ => plusUnit

theorem render_lead (line : PatchLine) : line.render = line.lead :: line.text := by
  cases line with
  | context text => rfl
  | removed text => rfl
  | added text => rfl

theorem lead_cases (line : PatchLine) : line.lead = space ∨ line.lead = minusUnit ∨ line.lead = plusUnit := by
  cases line with
  | context text => exact .inl rfl
  | removed text => exact .inr (.inl rfl)
  | added text => exact .inr (.inr rfl)

theorem not_token {line : PatchLine} {token : JsString} (nonempty : token ≠ [])
    (other : token.head? ≠ some space ∧ token.head? ≠ some minusUnit ∧ token.head? ≠ some plusUnit) :
    startsWith line.render token = false := by
  refine not_startsWith nonempty ?_
  rw [line.render_lead, List.head?_cons]
  intro same
  rcases line.lead_cases with lead | lead | lead <;> rw [lead] at same <;> simp [← same] at other

theorem not_opening (line : PatchLine) : startsWith line.render (js "@@") = false :=
  not_token (by decide) (by decide)

theorem not_eof (line : PatchLine) : isEofLine line.render = false := by
  have noMarker : startsWith line.render eofMarker = false := not_token (by decide) (by decide)
  simp [isEofLine, noMarker]

theorem not_dropped (line : PatchLine) : isDroppedTail line.render = false := by
  cases line with
  | context text => simp [isDroppedTail, render, isDiffContentLine]
  | removed text =>
    have visible := @visible_row minusUnit text (by decide)
    have kept : trim (minusUnit :: text) ≠ [] := by
      intro blank
      simp [blank] at visible
    simp [isDroppedTail, render, kept]
  | added text =>
    have visible := @visible_row plusUnit text (by decide)
    have kept : trim (plusUnit :: text) ≠ [] := by
      intro blank
      simp [blank] at visible
    simp [isDroppedTail, render, kept]

theorem clean (line : PatchLine) (oneLine : lineFeed ∉ line.text) : lineFeed ∉ line.render := by
  have other : line.lead ≠ lineFeed := by
    rcases line.lead_cases with lead | lead | lead <;> rw [lead] <;> decide
  rw [line.render_lead, List.mem_cons, not_or]
  exact ⟨other.symm,oneLine⟩

/-- A line that could name another file is neither context nor a change. -/
theorem no_marker (line : PatchLine) (notContent : isDiffContentLine line.render = false) :
    multiFileMarkers.find? (startsWith (trim line.render) ·) = none := by
  have heads : ∀ marker ∈ multiFileMarkers, marker ≠ [] ∧ marker.head? ≠ some minusUnit ∧ marker.head? ≠ some plusUnit := by
    decide
  rw [List.find?_eq_none]
  intro marker mem
  obtain ⟨nonempty,notMinus,notPlus⟩ := heads marker mem
  rw [Bool.not_eq_true]
  refine not_startsWith nonempty ?_
  cases line with
  | context text => simp [render, isDiffContentLine] at notContent
  | removed text =>
    rw [render, visible_row text (by decide)]
    exact notMinus.symm
  | added text =>
    rw [render, visible_row text (by decide)]
    exact notPlus.symm

end PatchLine

def HunkBody.extended (body : HunkBody) (lines : List PatchLine) : HunkBody :=
  ⟨body.hasContextLines || lines.any PatchLine.isContext,body.oldLines ++ lines.filterMap PatchLine.oldLine,
    body.newLines ++ lines.filterMap PatchLine.newLine,body.isEndOfFile,body.parsedLines + lines.length⟩

theorem scanBody_rows (lineNumber : Nat) (body : HunkBody) (lines : List PatchLine)
    (notElided : ∀ line ∈ lines, isElision line.render = false) :
    scanBody lineNumber body (lines.map PatchLine.render) = .ok (body.extended lines) := by
  induction lines generalizing body with
  | nil => simp [scanBody, HunkBody.extended]
  | cons line lines ih =>
    have later := fun body => ih body fun other mem => notElided other (List.mem_cons_of_mem _ mem)
    have plain := notElided line List.mem_cons_self
    have notEof := line.not_eof
    rw [List.map_cons, scanBody, if_neg (by simp [line.render_lead]), if_neg (by simp [notEof]),
      if_neg (by simp [plain]), if_neg (by simp [line.render_lead])]
    cases line with
    | context text =>
      have first : (PatchLine.context text).render.head? = some space := rfl
      rw [if_pos first, later]
      simp [HunkBody.extended, HunkBody.context, PatchLine.render, PatchLine.isContext, PatchLine.oldLine,
        PatchLine.newLine]
      omega
    | removed text =>
      have first : (PatchLine.removed text).render.head? = some minusUnit := rfl
      rw [if_neg (by rw [first]; decide), if_neg (by rw [first]; decide), if_pos first, later]
      simp [HunkBody.extended, HunkBody.removed, PatchLine.render, PatchLine.isContext, PatchLine.oldLine,
        PatchLine.newLine, List.filterMap_cons]
      omega
    | added text =>
      have first : (PatchLine.added text).render.head? = some plusUnit := rfl
      rw [if_neg (by rw [first]; decide), if_pos first, later]
      simp [HunkBody.extended, HunkBody.added, PatchLine.render, PatchLine.isContext, PatchLine.oldLine,
        PatchLine.newLine, List.filterMap_cons]
      omega

namespace PatchHunk
variable {hunk : PatchHunk}

theorem rows_nonempty (read : ReadAsWritten hunk) : hunk.rows ≠ [] := by
  have opened := read.opened
  intro empty
  rw [empty] at opened
  cases marker : hunk.marker with
  | true => simp [marker, opens] at opened
  | false => simp [marker, opens] at opened

theorem diffLines_clean (hunk : PatchHunk) : ∀ row ∈ hunk.diffLines, lineFeed ∉ row := by
  intro row mem
  rcases List.mem_append.mp mem with opening | body
  · have marker : row ∈ [emptyChangeContextMarker] := by
      split at opening
      · exact opening
      · exact absurd opening List.not_mem_nil
    obtain rfl := List.mem_singleton.mp marker
    decide
  · obtain ⟨line,among,rfl⟩ := List.mem_map.mp body
    exact line.clean (hunk.oneLine line among)

theorem diffLines_nonempty (read : ReadAsWritten hunk) : hunk.diffLines ≠ [] := by
  intro empty
  exact rows_nonempty read (List.append_eq_nil_iff.mp empty).2

theorem split_diffText (read : ReadAsWritten hunk) : splitLines hunk.diffText = hunk.diffLines :=
  split_join hunk.diffLines hunk.diffLines_clean (diffLines_nonempty read)

/-- Every row is a line of the hunk or the bare marker. -/
theorem row_cases {row : JsString} (mem : row ∈ hunk.diffLines) :
    row = emptyChangeContextMarker ∨ ∃ line ∈ hunk.lines, line.render = row := by
  rcases List.mem_append.mp mem with opening | body
  · split at opening
    · exact .inl (List.mem_singleton.mp opening)
    · exact absurd opening List.not_mem_nil
  · exact .inr (List.mem_map.mp body)

theorem no_file_markers (read : ReadAsWritten hunk) : countMultiFileMarkers hunk.diffText = 0 := by
  have none' : (((splitLines hunk.diffText).filter fun line => !isDiffContentLine line).map trim).filterMap (fun line =>
      (multiFileMarkers.find? (startsWith line ·)).map fun marker => (marker, line)) = [] := by
    rw [List.filterMap_eq_nil_iff]
    intro trimmed mem
    obtain ⟨row,among,rfl⟩ := List.mem_map.mp mem
    obtain ⟨here,notContent⟩ := List.mem_filter.mp among
    rw [split_diffText read] at here
    rcases row_cases here with rfl | ⟨line,_,rfl⟩
    · decide
    · rw [line.no_marker (by simpa using notContent)]
      rfl
  unfold countMultiFileMarkers
  simp only [none']
  decide

theorem getLast_row (read : ReadAsWritten hunk) :
    ∃ line, hunk.lines.getLast? = some line ∧ hunk.diffLines.getLast? = some line.render := by
  cases last : hunk.lines.getLast? with
  | none => exact absurd (by rw [rows, List.getLast?_eq_none_iff.mp last]; rfl) (rows_nonempty read)
  | some line => exact ⟨line,rfl,by simp [diffLines, rows, List.getLast?_append, last]⟩

theorem normalized_rows (read : ReadAsWritten hunk) : normalizedDiffLines hunk.diffLines = hunk.diffLines := by
  obtain ⟨line,last,lastRow⟩ := getLast_row read
  have tail : hunk.diffLines.rdropWhile isDroppedTail = hunk.diffLines := by
    rw [List.rdropWhile_eq_self_iff]
    intro nonempty
    have same : hunk.diffLines.getLast nonempty = line.render := by
      rw [List.getLast?_eq_some_getLast nonempty] at lastRow
      exact Option.some.inj lastRow
    simp [same, line.not_dropped]
  have front : dropFirstIf (fun row => isPatchWrapperLine (trim row)) hunk.diffLines = hunk.diffLines := by
    have opened := read.opened
    cases marker : hunk.marker with
    | true => simp [diffLines, marker, dropFirstIf]; decide
    | false =>
      cases rows : hunk.rows with
      | nil => exact absurd rows (rows_nonempty read)
      | cons first rest =>
        simp only [marker, rows, opens, Bool.and_eq_true, Bool.not_eq_true'] at opened
        simp [diffLines, marker, rows, dropFirstIf, opened.1.1]
  have back : dropLastIf (fun row => isPatchWrapperLine (trim row)) hunk.diffLines = hunk.diffLines := by
    rw [dropLastIf, lastRow]
    simp [read.lastNotWrapper line last]
  have all : hunk.diffLines.filter isKeptLine = hunk.diffLines := by
    rw [List.filter_eq_self]
    intro row mem
    rcases row_cases mem with rfl | ⟨line,among,rfl⟩
    · decide
    · exact read.kept line among
  simp only [normalizedDiffLines, tail, front, back, all]

theorem lines_normalized (read : ReadAsWritten hunk) : splitLines (normalizeDiff hunk.diffText) = hunk.diffLines := by
  rw [normalizeDiff, split_diffText read, normalized_rows read]
  exact split_join hunk.diffLines hunk.diffLines_clean (diffLines_nonempty read)

theorem nestedContexts_rows (hunk : PatchHunk) : nestedContexts hunk.rows = ([], hunk.rows) := by
  rw [rows]
  cases hunk.lines with
  | nil => rfl
  | cons line lines => simp [nestedContexts, line.not_opening]

theorem parseHunkHeader_marker (lineNumber : Nat) :
    parseHunkHeader emptyChangeContextMarker lineNumber true = .ok ⟨[],none,1⟩ := by
  have opening : startsWith emptyChangeContextMarker (js "@@") = true := by decide
  have bare : trimEnd emptyChangeContextMarker = emptyChangeContextMarker := by decide
  simp [parseHunkHeader, opening, bare]

theorem parseHunkHeader_row (line : PatchLine) (lineNumber : Nat) :
    parseHunkHeader line.render lineNumber true = .ok ⟨[],none,0⟩ := by
  simp [parseHunkHeader, line.not_opening]

theorem parseOneHunk_rows (read : ReadAsWritten hunk) (lineNumber : Nat) :
    parseOneHunk hunk.diffLines lineNumber true = .ok ⟨hunk.parsed,hunk.diffLines.length⟩ := by
  have nonempty := rows_nonempty read
  have count : hunk.rows.length = hunk.lines.length := by simp [rows]
  have positive : 0 < hunk.rows.length := List.length_pos_iff.mpr nonempty
  have scanned := scanBody_rows lineNumber ⟨false,[],[],false,0⟩ hunk.lines read.notElided
  have unnumbered : stripLineNumberPrefixes hunk.parsed = hunk.parsed := by
    have plain : looksNumbered hunk.parsed.oldLines hunk.parsed.newLines = false := read.notNumbered
    simp [stripLineNumberPrefixes, plain]
  obtain ⟨headerLine,rest,split⟩ : ∃ headerLine rest, hunk.diffLines = headerLine :: rest :=
    List.exists_cons_of_ne_nil (diffLines_nonempty read)
  have header : parseHunkHeader headerLine lineNumber true = .ok ⟨[],none,if hunk.marker then 1 else 0⟩ ∧
      hunk.diffLines.drop (if hunk.marker then 1 else 0) = hunk.rows := by
    cases marker : hunk.marker with
    | true =>
      simp only [diffLines, marker, if_true, List.singleton_append, List.cons.injEq] at split
      rw [← split.1]
      exact ⟨parseHunkHeader_marker lineNumber,by simp [diffLines, marker]⟩
    | false =>
      have first : hunk.rows = headerLine :: rest := by simpa [diffLines, marker] using split
      obtain ⟨line,_,rfl⟩ : ∃ line ∈ hunk.lines, line.render = headerLine :=
        List.mem_map.mp (show headerLine ∈ hunk.rows by rw [first]; exact List.mem_cons_self)
      exact ⟨parseHunkHeader_row line lineNumber,by simp [diffLines, marker]⟩
  obtain ⟨opening,body⟩ := header
  have length : hunk.diffLines.length = (if hunk.marker then 1 else 0) + hunk.rows.length := by
    simp only [diffLines, List.length_append]
    split <;> rfl
  rw [split, parseOneHunk, ← split, opening]
  simp only [bind, Except.bind, body, nestedContexts_rows, List.isEmpty_iff, if_neg nonempty]
  rw [rows, scanned]
  have some' : ¬ hunk.lines.length = 0 := by omega
  have whole : (⟨joinContexts [],none,none,hunk.lines.any PatchLine.isContext,hunk.lines.filterMap PatchLine.oldLine,
      hunk.lines.filterMap PatchLine.newLine,false⟩ : DiffHunk) = hunk.parsed := rfl
  have consumed : hunk.lines.length + (hunk.diffLines.length - hunk.lines.length) = hunk.diffLines.length := by omega
  simp [HunkBody.extended, some', whole, unnumbered, consumed]

/-- The loop over the lines hands the whole text to the hunk parser. -/
theorem first_row (read : ReadAsWritten hunk) {first : JsString} {rest : List JsString}
    (split : hunk.diffLines = first :: rest) :
    isBlankLine first = false ∧
    (!(first.head? = some space || first.head? = some plusUnit || first.head? = some minusUnit) &&
      isUnifiedDiffMetadataLine (trim first)) = false ∧
    (startsWith (trim first) (js "@@") && rest.all isBlankLine) = false := by
  have opened := read.opened
  cases marker : hunk.marker with
  | true =>
    simp only [diffLines, marker, if_true, List.singleton_append, List.cons.injEq] at split
    obtain ⟨rfl,rfl⟩ := split
    rw [marker, opens, Bool.not_eq_true'] at opened
    exact ⟨by decide,by decide,by rw [opened, Bool.and_false]⟩
  | false =>
    have here : hunk.rows = first :: rest := by simpa [diffLines, marker] using split
    obtain ⟨line,_,rfl⟩ : ∃ line ∈ hunk.lines, line.render = first :=
      List.mem_map.mp (show first ∈ hunk.rows by rw [here]; exact List.mem_cons_self)
    simp only [marker, here, opens, Bool.and_eq_true, Bool.not_eq_true'] at opened
    refine ⟨opened.1.2,?_,opened.2⟩
    rcases line.lead_cases with lead | lead | lead <;> simp [line.render_lead, lead]

theorem parse_diffText (read : ReadAsWritten hunk) : parseDiffHunks hunk.diffText = .ok [hunk.parsed] := by
  have single : ¬ 1 < countMultiFileMarkers hunk.diffText := by rw [no_file_markers read]; omega
  simp only [parseDiffHunks, if_neg single, lines_normalized read]
  obtain ⟨first,rest,split⟩ : ∃ first rest, hunk.diffLines = first :: rest :=
    List.exists_cons_of_ne_nil (diffLines_nonempty read)
  obtain ⟨visible,notMetadata,hasBody⟩ := first_row read split
  have whole := parseOneHunk_rows read 1
  rw [split] at whole ⊢
  rw [List.length_cons, parseHunks, if_neg (by simp [visible]), if_neg (by simpa using notMetadata),
    if_neg (by simpa using hasBody), whole]
  simp only [bind, Except.bind, List.drop_length]
  cases rest.length <;> rfl

end PatchHunk

end Edit
