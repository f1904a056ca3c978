import OpenAgents.Lib.JsText
import Mathlib.Data.List.Basic

/- A text as a list of lines and, perhaps, a line feed after the last. -/
namespace TextLines
open JsText

def endsWithLineFeed (content : JsString) : Bool := content.getLast? == some lineFeed

/- The lines, without the empty piece after a final line feed. -/
def textLines (content : JsString) : List JsString :=
  if endsWithLineFeed content then (splitLines content).dropLast else splitLines content

def finalNewline (content : JsString) : JsString := if endsWithLineFeed content then [lineFeed] else []

def terminate (lines : List JsString) : JsString := lines.flatMap fun line => line ++ [lineFeed]
def precede (lines : List JsString) : JsString := lines.flatMap fun line => lineFeed :: line

theorem join_append (before : List JsString) {rest : List JsString} (more : rest ≠ []) :
    joinLines (before ++ rest) = terminate before ++ joinLines rest := by
  induction before with
  | nil => rfl
  | cons line before ih =>
    have later : before ++ rest ≠ [] := by simp [more]
    cases after : before ++ rest with
    | nil => exact absurd after later
    | cons next others =>
      rw [after] at ih
      rw [List.cons_append, after, joinLines, List.intercalate_cons_cons, ← joinLines, ih]
      simp [terminate]

theorem join_cons (line : JsString) (rest : List JsString) : joinLines (line :: rest) = line ++ precede rest := by
  induction rest generalizing line with
  | nil => simp [joinLines, precede]
  | cons next rest ih =>
    rw [joinLines, List.intercalate_cons_cons, ← joinLines, ih next]
    simp [precede]

theorem join_append_precede {lines : List JsString} (some' : lines ≠ []) (after : List JsString) :
    joinLines (lines ++ after) = joinLines lines ++ precede after := by
  cases lines with
  | nil => exact absurd rfl some'
  | cons line lines => simp [join_cons, precede]

theorem precede_block {block : List JsString} (some' : block ≠ []) : precede block = lineFeed :: joinLines block := by
  cases block with
  | nil => exact absurd rfl some'
  | cons line block => simp [join_cons, precede]

theorem precede_blocks {blocks : List (List JsString)} (filled : ∀ block ∈ blocks, block ≠ []) :
    precede (blocks.map joinLines) = precede blocks.flatten := by
  induction blocks with
  | nil => rfl
  | cons block blocks ih =>
    have first := precede_block (filled block List.mem_cons_self)
    have rest := ih fun other mem => filled other (List.mem_cons_of_mem _ mem)
    have pieces : precede (block ++ blocks.flatten) = precede block ++ precede blocks.flatten := by simp [precede]
    rw [List.flatten_cons, pieces, ← rest, first]
    simp [precede]

theorem join_groups {blocks : List (List JsString)} (filled : ∀ block ∈ blocks, block ≠ []) :
    joinLines (blocks.map joinLines) = joinLines blocks.flatten := by
  cases blocks with
  | nil => rfl
  | cons block blocks =>
    rw [List.map_cons, join_cons, List.flatten_cons, join_append_precede (filled block List.mem_cons_self),
      precede_blocks fun other mem => filled other (List.mem_cons_of_mem _ mem)]

theorem join_block (before : List JsString) {block : List JsString} (some' : block ≠ []) (after : List JsString) :
    joinLines (before ++ block ++ after) = terminate before ++ joinLines block ++ precede after := by
  rw [List.append_assoc, join_append before (by simp [some']), join_append_precede some', List.append_assoc]

theorem join_terminated {lines : List JsString} (some' : lines ≠ []) : joinLines (lines ++ [[]]) = joinLines lines ++ [lineFeed] := by
  obtain ⟨front,last,rfl⟩ : ∃ front last, lines = front ++ [last] :=
    ⟨lines.dropLast,lines.getLast some',(List.dropLast_append_getLast some').symm⟩
  rw [List.append_assoc, join_append front (by simp), join_append front (by simp)]
  simp [joinLines, List.intercalate]

theorem join_single (line : JsString) : joinLines [line] = line := by simp [joinLines, List.intercalate]

theorem terminate_join {front : List JsString} (some' : front ≠ []) : terminate front = joinLines front ++ [lineFeed] := by
  rw [← join_terminated some', join_append front (List.cons_ne_nil _ _), join_single, List.append_nil]

theorem endsWith_append_lineFeed (content : JsString) : endsWithLineFeed (content ++ [lineFeed]) = true := by
  simp [endsWithLineFeed]

theorem ends_iff (content : JsString) : endsWithLineFeed content = true ↔ ∃ front, content = front ++ [lineFeed] := by
  constructor
  · intro ends
    have last : content.getLast? = some lineFeed := by simpa [endsWithLineFeed] using ends
    obtain ⟨front,text⟩ := List.getLast?_eq_some_iff.mp last
    exact ⟨front,text⟩
  · intro split
    obtain ⟨front,rfl⟩ := split
    exact endsWith_append_lineFeed front

theorem textLines_terminated (front : JsString) : textLines (front ++ [lineFeed]) = splitLines front := by
  have pieces : splitLines (front ++ [lineFeed]) = splitLines front ++ [[]] := by
    simp [splitLines, List.splitOn_append_cons_self]
  rw [textLines, if_pos (endsWith_append_lineFeed front), pieces, List.dropLast_concat]

theorem textLines_ne_nil (content : JsString) : textLines content ≠ [] := by
  by_cases ends : endsWithLineFeed content = true
  · obtain ⟨front,rfl⟩ := (ends_iff content).mp ends
    rw [textLines_terminated]
    exact List.splitOn_ne_nil lineFeed front
  · rw [textLines, if_neg ends]
    exact List.splitOn_ne_nil lineFeed content

theorem join_textLines (content : JsString) : joinLines (textLines content) ++ finalNewline content = content := by
  by_cases ends : endsWithLineFeed content = true
  · rw [finalNewline, if_pos ends]
    obtain ⟨front,rfl⟩ := (ends_iff content).mp ends
    rw [textLines_terminated, join_split]
  · rw [textLines, finalNewline, if_neg ends, if_neg ends, join_split, List.append_nil]

/- The text after the last line feed: a line that more text may still extend. -/
def lastLine (content : JsString) : JsString := (splitLines content).getLastD []

theorem splitLines_ne_nil (content : JsString) : splitLines content ≠ [] := List.splitOn_ne_nil lineFeed content

theorem split_whole_last (content : JsString) : splitLines content = (splitLines content).dropLast ++ [lastLine content] := by
  have some' := splitLines_ne_nil content
  have last : lastLine content = (splitLines content).getLast some' := by
    rw [lastLine, List.getLastD_eq_getLast?, List.getLast?_eq_some_getLast some', Option.getD_some]
  rw [last, List.dropLast_append_getLast some']

theorem lastLine_clean (content : JsString) : lineFeed ∉ lastLine content := by
  have last : lastLine content ∈ splitLines content := by
    rw [split_whole_last content]
    exact List.mem_append_right _ List.mem_cons_self
  exact split_clean content (lastLine content) last

theorem text_whole_last (content : JsString) : terminate (splitLines content).dropLast ++ lastLine content = content := by
  calc terminate (splitLines content).dropLast ++ lastLine content
      = joinLines ((splitLines content).dropLast ++ [lastLine content]) := by
        rw [join_append _ (by simp)]
        simp [joinLines, List.intercalate]
    _ = content := by rw [← split_whole_last, join_split]

theorem count_terminate {lines : List JsString} (clean : ∀ line ∈ lines, lineFeed ∉ line) :
    (terminate lines).count lineFeed = lines.length := by
  induction lines with
  | nil => rfl
  | cons line rest ih =>
    obtain ⟨here,later⟩ := List.forall_mem_cons.mp clean
    rw [terminate, List.flatMap_cons, List.count_append, List.count_append, List.count_eq_zero_of_not_mem here, ← terminate,
      ih later, List.length_cons]
    simp
    omega

theorem splitLines_length (content : JsString) : (splitLines content).length = content.count lineFeed + 1 := by
  have clean := split_clean content
  have whole := text_whole_last content
  have count : content.count lineFeed = (splitLines content).dropLast.length := by
    conv => lhs; rw [← whole]
    rw [List.count_append, List.count_eq_zero_of_not_mem (lastLine_clean content), Nat.add_zero,
      count_terminate fun line mem => clean line (List.dropLast_subset _ mem)]
  have positive : 0 < (splitLines content).length := List.length_pos_iff.mpr (splitLines_ne_nil content)
  rw [count, List.length_dropLast]
  omega

theorem line_subset {content line : JsString} (mem : line ∈ splitLines content) : line ⊆ content := by
  rw [split_whole_last content] at mem
  rw [← text_whole_last content]
  rcases List.mem_append.mp mem with early | last
  · intro c here
    refine List.mem_append_left _ (List.mem_flatMap.mpr ⟨line,early,?_⟩)
    exact List.mem_append_left _ here
  · rw [List.mem_singleton.mp last]
    exact List.subset_append_right _ _

theorem split_terminated {whole : List JsString} (clean : ∀ line ∈ whole, lineFeed ∉ line) (rest : JsString) :
    splitLines (terminate whole ++ rest) = whole ++ splitLines rest := by
  induction whole with
  | nil => rfl
  | cons line whole ih =>
    have first := List.splitOn_eq_singleton (clean line List.mem_cons_self)
    have text : terminate (line :: whole) ++ rest = line ++ lineFeed :: (terminate whole ++ rest) := by
      simp [terminate]
    rw [text, splitLines, List.splitOn_append_cons_self, first, ← splitLines,
      ih fun other mem => clean other (List.mem_cons_of_mem line mem)]
    rfl

/-- More text extends the last line and adds lines after it. -/
theorem splitLines_append (front back : JsString) :
    splitLines (front ++ back) = (splitLines front).dropLast ++ splitLines (lastLine front ++ back) := by
  have clean : ∀ line ∈ (splitLines front).dropLast, lineFeed ∉ line := fun line mem =>
    split_clean front line ((List.dropLast_sublist _).subset mem)
  have whole := split_terminated clean (lastLine front ++ back)
  rwa [← List.append_assoc, text_whole_last] at whole

theorem lastLine_append (front back : JsString) : lastLine (front ++ back) = lastLine (lastLine front ++ back) := by
  have some' := splitLines_ne_nil (lastLine front ++ back)
  unfold lastLine
  rw [splitLines_append, List.getLastD_eq_getLast?, List.getLast?_append_of_ne_nil _ some', ← List.getLastD_eq_getLast?]
  rfl

end TextLines

/- A stream of pieces with a separator behind each: those that are complete, and what has come of
   the next. Cutting the stream into chunks changes neither. -/
namespace SeparatedStream
variable {α : Type} [BEq α] [LawfulBEq α] (sep : α)

def complete (s : List α) : List (List α) := (s.splitOn sep).dropLast

def pending (s : List α) : List α := (s.splitOn sep).getLastD []

/- All pieces of a whole stream; the last one may do without a separator. -/
def pieces (s : List α) : List (List α) := complete sep s ++ if pending sep s = [] then [] else [pending sep s]

variable {sep}

omit [LawfulBEq α] in
theorem splitOn_eq (s : List α) : s.splitOn sep = complete sep s ++ [pending sep s] := by
  have some' := List.splitOn_ne_nil sep s
  rw [complete, pending, List.getLastD_eq_getLast?, List.getLast?_eq_some_getLast some', Option.getD_some,
    List.dropLast_append_getLast some']

theorem complete_none {s : List α} (clean : sep ∉ s) : complete sep s = [] := by
  rw [complete, List.splitOn_eq_singleton clean]
  rfl

theorem pending_none {s : List α} (clean : sep ∉ s) : pending sep s = s := by
  rw [pending, List.splitOn_eq_singleton clean]
  rfl

theorem complete_cons {piece : List α} (clean : sep ∉ piece) (rest : List α) :
    complete sep (piece ++ sep :: rest) = piece :: complete sep rest := by
  rw [complete, List.splitOn_append_cons_self_of_not_mem clean, List.dropLast_cons_of_ne_nil (List.splitOn_ne_nil sep rest)]
  rfl

theorem pending_cons {piece : List α} (clean : sep ∉ piece) (rest : List α) :
    pending sep (piece ++ sep :: rest) = pending sep rest := by
  have some' := List.splitOn_ne_nil sep rest
  rw [pending, List.splitOn_append_cons_self_of_not_mem clean, pending]
  cases split : rest.splitOn sep with
  | nil => exact absurd split some'
  | cons first others => rfl

theorem find_none {s : List α} (found : s.findIdx? (· == sep) = none) : sep ∉ s := by
  intro mem
  have other := List.findIdx?_eq_none_iff.mp found sep mem
  rw [beq_self_eq_true] at other
  cases other

/-- The first separator ends the first piece. -/
theorem find_some {s : List α} {i : Nat} (found : s.findIdx? (· == sep) = some i) :
    sep ∉ s.take i ∧ s = s.take i ++ sep :: s.drop (i + 1) := by
  obtain ⟨inside,here,before⟩ := List.findIdx?_eq_some_iff_getElem.mp found
  constructor
  · intro mem
    obtain ⟨j,lt,hit⟩ := List.mem_take_iff_getElem.mp mem
    apply before j (by omega)
    rw [hit, beq_self_eq_true]
  · have same : s[i] = sep := LawfulBEq.eq_of_beq here
    rw [← same, ← List.drop_eq_getElem_cons inside, List.take_append_drop]

/-- A stream is a piece without separator, or a piece, a separator and a stream. -/
theorem stream_induction {motive : List α → Prop} (clean : ∀ s, sep ∉ s → motive s)
    (cons : ∀ piece rest, sep ∉ piece → motive rest → motive (piece ++ sep :: rest)) (s : List α) : motive s := by
  induction size : s.length using Nat.strongRecOn generalizing s with
  | ind n ih =>
    by_cases mem : sep ∈ s
    · obtain ⟨piece,rest,split,none'⟩ := List.eq_append_cons_of_mem mem
      rw [split] at size ⊢
      rw [List.length_append, List.length_cons] at size
      exact cons piece rest none' (ih rest.length (by omega) rest rfl)
    · exact clean s mem

theorem pending_clean (s : List α) : sep ∉ pending sep s := by
  induction s using @stream_induction _ _ _ sep with
  | clean s none' => rwa [pending_none none']
  | cons piece rest none' ih => rwa [pending_cons none']

theorem complete_append (front back : List α) :
    complete sep (front ++ back) = complete sep front ++ complete sep (pending sep front ++ back) := by
  induction front using @stream_induction _ _ _ sep with
  | clean front none' => rw [complete_none none', pending_none none', List.nil_append]
  | cons piece rest none' ih =>
    rw [List.append_assoc, List.cons_append, complete_cons none', complete_cons none', pending_cons none', ih, List.cons_append]

theorem pending_append (front back : List α) : pending sep (front ++ back) = pending sep (pending sep front ++ back) := by
  induction front using @stream_induction _ _ _ sep with
  | clean front none' => rw [pending_none none']
  | cons piece rest none' ih => rw [List.append_assoc, List.cons_append, pending_cons none', pending_cons none', ih]

end SeparatedStream
