import OpenAgents.Lib.FlatEdits
import OpenAgents.Lib.TextLines
import OpenAgents.Lib.LineSplice

/- Text edits of a language server, applied to the lines of a document from the last edit to
   the first. An edit may leave a line feed inside a line; the lines are only joined in the end. -/
namespace TextEdits
open JsText TextLines LineSplice

structure Position where
  line : Nat
  character : Nat
  deriving DecidableEq

structure Range where
  start : Position
  stop : Position
  deriving DecidableEq

structure TextEdit where
  range : Range
  newText : JsString
  deriving DecidableEq

def comparePosition (a b : Position) : Int :=
  if a.line = b.line then (a.character : Int) - b.character else (a.line : Int) - b.line

def formatRange (range : Range) : JsString :=
  decimal (range.start.line + 1) ++ js ":" ++ decimal (range.start.character + 1) ++ js "-" ++
    decimal (range.stop.line + 1) ++ js ":" ++ decimal (range.stop.character + 1)

def rangesOverlap (a b : Range) : Bool := comparePosition a.start b.stop < 0 && comparePosition b.start a.stop < 0

/- The comparison of the sort, which is stable. -/
def compareEdits (a b : TextEdit) : Int :=
  if a.range.start.line ≠ b.range.start.line then (b.range.start.line : Int) - a.range.start.line
  else (b.range.start.character : Int) - a.range.start.character

def sortEdits (edits : List TextEdit) : List TextEdit := edits.insertionSort fun a b => compareEdits a b ≤ 0

def overlapMessage (earlier later : Range) : JsString :=
  js "overlapping LSP edits: " ++ formatRange earlier ++ js " conflicts with " ++ formatRange later ++
    js "; multi-server rename produced inconsistent edits"

/- Each edit of the sorted list is compared with the next one. -/
def findConflict : List TextEdit → Option JsString
  | later :: earlier :: rest =>
      if comparePosition earlier.range.stop later.range.start > 0 then some (overlapMessage earlier.range later.range)
      else findConflict (earlier :: rest)
  | _ => none

/- A line that is not there reads as empty, and an assignment behind the last line adds lines. -/
def lineAt (lines : List JsString) (line : Nat) : JsString := lines.getD line []

def setLine (lines : List JsString) (line : Nat) (text : JsString) : List JsString :=
  if line < lines.length then lines.set line text else lines ++ List.replicate (line - lines.length) [] ++ [text]

def applyEdit (lines : List JsString) (edit : TextEdit) : List JsString :=
  let start := edit.range.start
  let stop := edit.range.stop
  if start.line = stop.line then
    setLine lines start.line
      ((lineAt lines start.line).take start.character ++ edit.newText ++ (lineAt lines start.line).drop stop.character)
  else
    splice lines start.line (stop.line + 1 - start.line)
      (splitLines ((lineAt lines start.line).take start.character ++ edit.newText ++
        (lineAt lines stop.line).drop stop.character))

def applyTextEditsToString (content : JsString) (edits : List TextEdit) : Except JsString JsString :=
  let sortedEdits := sortEdits edits
  match findConflict sortedEdits with
  | some message => .error message
  | none => .ok (joinLines (sortedEdits.foldl applyEdit (splitLines content)))

/-- A place in a line, or behind its last unit. -/
structure Inside (lines : List JsString) (p : Position) : Prop where
  line : p.line < lines.length
  character : p.character ≤ (lineAt lines p.line).length

structure Valid (lines : List JsString) (edit : TextEdit) : Prop where
  start : Inside lines edit.range.start
  stop : Inside lines edit.range.stop
  order : comparePosition edit.range.start edit.range.stop ≤ 0

instance (lines : List JsString) (p : Position) : Decidable (Inside lines p) :=
  decidable_of_iff (p.line < lines.length ∧ p.character ≤ (lineAt lines p.line).length)
    ⟨fun both => ⟨both.1,both.2⟩,fun inside => ⟨inside.line,inside.character⟩⟩

instance (lines : List JsString) (edit : TextEdit) : Decidable (Valid lines edit) :=
  decidable_of_iff (Inside lines edit.range.start ∧ Inside lines edit.range.stop ∧
      comparePosition edit.range.start edit.range.stop ≤ 0)
    ⟨fun all => ⟨all.1,all.2.1,all.2.2⟩,fun valid => ⟨valid.start,valid.stop,valid.order⟩⟩

variable {a b p q : Position} {n : Nat}

theorem compare_le_iff : comparePosition a b ≤ 0 ↔ a.line < b.line ∨ (a.line = b.line ∧ a.character ≤ b.character) := by
  rw [comparePosition]
  split <;> omega

theorem compare_lt_iff : comparePosition a b < 0 ↔ a.line < b.line ∨ (a.line = b.line ∧ a.character < b.character) := by
  rw [comparePosition]
  split <;> omega

theorem compareEdits_le_iff {a b : TextEdit} :
    compareEdits a b ≤ 0 ↔ comparePosition b.range.start a.range.start ≤ 0 := by
  rw [compareEdits, comparePosition]
  split <;> split <;> omega

/- Where the position is in the whole text. -/
def offset (lines : List JsString) (p : Position) : Nat := (terminate (lines.take p.line)).length + p.character

def flat (lines : List JsString) (edit : TextEdit) : FlatEdits.Edit CodeUnit :=
  ⟨offset lines edit.range.start,offset lines edit.range.stop,edit.newText⟩

theorem terminate_append (front back : List JsString) : terminate (front ++ back) = terminate front ++ terminate back :=
  List.flatMap_append

theorem lineAt_eq {lines : List JsString} (inside : n < lines.length) : lines[n]? = some (lineAt lines n) := by
  rw [lineAt, List.getD_eq_getElem?_getD, List.getElem?_eq_getElem inside]
  rfl

theorem take_next {lines : List JsString} (inside : n < lines.length) :
    terminate (lines.take (n + 1)) = terminate (lines.take n) ++ lineAt lines n ++ [lineFeed] := by
  rw [List.take_add_one, lineAt_eq inside, terminate_append]
  simp [terminate]

theorem take_length_mono (lines : List JsString) {low high : Nat} (le : low ≤ high) :
    (terminate (lines.take low)).length ≤ (terminate (lines.take high)).length := by
  have parts : lines.take high = lines.take low ++ (lines.take high).drop low := by
    have whole := (List.take_append_drop low (lines.take high)).symm
    rw [List.take_take, Nat.min_eq_left le] at whole
    exact whole
  rw [parts, terminate_append, List.length_append]
  omega

/-- An earlier place has a smaller offset, and two places have two offsets. -/
theorem offset_lt {lines : List JsString} (inside : Inside lines p) (before : comparePosition p q < 0) :
    offset lines p < offset lines q := by
  rw [offset, offset]
  rcases compare_lt_iff.mp before with above | ⟨same,left⟩
  · have next := congrArg List.length (take_next inside.line)
    rw [List.length_append, List.length_append, List.length_singleton] at next
    have mono := take_length_mono lines (show p.line + 1 ≤ q.line by omega)
    have room := inside.character
    omega
  · rw [same]
    omega

theorem compare_eq (one : ¬ comparePosition p q < 0) (two : ¬ comparePosition q p < 0) : p = q := by
  rw [compare_lt_iff] at one two
  cases p
  cases q
  rw [Position.mk.injEq]
  dsimp only at one two
  omega

theorem offset_inj {lines : List JsString} (first : Inside lines p) (second : Inside lines q)
    (same : offset lines p = offset lines q) : p = q := by
  apply compare_eq
  · intro before
    have less := offset_lt first before
    omega
  · intro after
    have less := offset_lt second after
    omega

theorem offset_le {lines : List JsString} (inside : Inside lines p) (before : comparePosition p q ≤ 0) :
    offset lines p ≤ offset lines q := by
  by_cases less : comparePosition p q < 0
  · exact Nat.le_of_lt (offset_lt inside less)
  · have same : p = q := by
      rw [compare_le_iff] at before
      rw [compare_lt_iff] at less
      cases p
      cases q
      rw [Position.mk.injEq]
      dsimp only at before less
      omega
    rw [same]

/-- The text before a place, and the text behind it. -/
theorem join_at {lines : List JsString} (inside : Inside lines p) :
    (joinLines lines).take (offset lines p) = terminate (lines.take p.line) ++ (lineAt lines p.line).take p.character ∧
      (joinLines lines).drop (offset lines p) = (lineAt lines p.line).drop p.character ++ precede (lines.drop (p.line + 1)) := by
  have parts : lines = lines.take p.line ++ [lineAt lines p.line] ++ lines.drop (p.line + 1) := by
    have whole := (List.take_append_drop (p.line + 1) lines).symm
    rw [List.take_add_one, lineAt_eq inside.line] at whole
    exact whole
  have text : joinLines lines = (terminate (lines.take p.line) ++ (lineAt lines p.line).take p.character) ++
      ((lineAt lines p.line).drop p.character ++ precede (lines.drop (p.line + 1))) := by
    have block := join_block (lines.take p.line) (List.cons_ne_nil (lineAt lines p.line) []) (lines.drop (p.line + 1))
    rw [← parts] at block
    have single : joinLines [lineAt lines p.line] = (lineAt lines p.line).take p.character ++ (lineAt lines p.line).drop p.character := by
      rw [List.take_append_drop, join_cons]
      simp [precede]
    rw [block, single]
    simp only [List.append_assoc]
  have length : (terminate (lines.take p.line) ++ (lineAt lines p.line).take p.character).length = offset lines p := by
    have room := inside.character
    rw [List.length_append, List.length_take, offset]
    omega
  rw [text, ← length]
  exact ⟨List.take_left,List.drop_left⟩

theorem offset_bound {lines : List JsString} (inside : Inside lines p) : offset lines p ≤ (joinLines lines).length := by
  have front := congrArg List.length (join_at inside).1
  have room := inside.character
  rw [List.length_take, List.length_append, List.length_take] at front
  rw [offset] at front ⊢
  omega

/-- Up to the place, the lines are still those of the document. -/
structure Agree (document lines : List JsString) (p : Position) : Prop where
  before : lines.take p.line = document.take p.line
  inside : Inside lines p
  front : (lineAt lines p.line).take p.character = (lineAt document p.line).take p.character

theorem agree_refl {document : List JsString} (inside : Inside document p) : Agree document document p :=
  ⟨rfl,inside,rfl⟩

theorem lineAt_take {lines : List JsString} {n bound : Nat} (below : n < bound) :
    lineAt (lines.take bound) n = lineAt lines n := by
  rw [lineAt, lineAt, List.getD_eq_getElem?_getD, List.getD_eq_getElem?_getD, List.getElem?_take_of_lt below]

theorem agree_before {document lines : List JsString} (agree : Agree document lines q) (inside : Inside document p)
    (le : comparePosition p q ≤ 0) : Agree document lines p := by
  rcases compare_le_iff.mp le with above | ⟨same,left⟩
  · have line : lineAt lines p.line = lineAt document p.line := by
      rw [← lineAt_take above, agree.before, lineAt_take above]
    refine ⟨?_,⟨?_,?_⟩,?_⟩
    · have cut := congrArg (List.take p.line) agree.before
      rw [List.take_take, List.take_take, Nat.min_eq_left (by omega)] at cut
      exact cut
    · exact Nat.lt_trans above agree.inside.line
    · rw [line]
      exact inside.character
    · rw [line]
  · refine ⟨?_,⟨?_,?_⟩,?_⟩
    · rw [same]
      exact agree.before
    · rw [same]
      exact agree.inside.line
    · rw [same]
      exact left.trans agree.inside.character
    · have cut := congrArg (List.take p.character) agree.front
      rw [List.take_take, List.take_take, Nat.min_eq_left left] at cut
      rw [same]
      exact cut

theorem agree_offset {document lines : List JsString} (agree : Agree document lines p) :
    offset document p = offset lines p := by
  rw [offset, offset, agree.before]

/-- The first line of a text that begins with units other than a line feed. -/
theorem split_clean_append {front : JsString} (clean : lineFeed ∉ front) (rest : JsString) :
    ∃ first others, splitLines (front ++ rest) = (front ++ first) :: others := by
  induction front with
  | nil =>
    cases rows : splitLines rest with
    | nil => exact absurd rows (List.splitOn_ne_nil lineFeed rest)
    | cons first others => exact ⟨first,others,rows⟩
  | cons c front ih =>
    rw [List.mem_cons, not_or] at clean
    obtain ⟨first,others,rows⟩ := ih clean.2
    refine ⟨first,others,?_⟩
    have other : ¬ (c == lineFeed) = true := by simpa using fun same : c = lineFeed => clean.1 same.symm
    rw [splitLines] at rows
    rw [splitLines, List.cons_append, List.splitOn_cons_eq_if_modifyHead, if_neg other, rows]
    rfl

end TextEdits
