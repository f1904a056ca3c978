import OpenAgents.Edit.DiffString
import OpenAgents.Hashline.HeaderText

/- The compact preview of a numbered diff, and that its numbers are line numbers a follow-up edit can use. -/
namespace Edit
open JsText TextLines Hashline

def barUnit : CodeUnit := 124

/- `Number.parseInt(s, 10)`; `none` is NaN. -/
def parseInt (s : JsString) : Option Int :=
  let s := trimStart s
  let negative := s.head? = some 45
  let s := if negative || s.head? = some 43 then s.tail else s
  let digits := s.takeWhile isDigit
  if digits.isEmpty then none
  else some (if negative then - (digitsValue digits : Int) else digitsValue digits)

def numberText : Option Int → JsString
  | none => js "NaN"
  | some n => if n < 0 then js "-" ++ decimal n.natAbs else decimal n.natAbs

structure CompactDiffPreview where
  preview : JsString
  addedLines : Nat
  removedLines : Nat
  deriving DecidableEq, Repr

/- The sign, the text before the bar and the text after it. -/
def splitRow (line : JsString) : Option (Sign × JsString × JsString) :=
  match line with
  | [] => none
  | kind :: body =>
      let sign :=
        if kind = 43 then some Sign.added
        else if kind = 45 then some Sign.removed
        else if kind = space then some Sign.context
        else none
      match sign with
      | none => none
      | some sign => if barUnit ∈ body then some (sign, body.takeWhile (· != barUnit), (body.dropWhile (· != barUnit)).tail) else none

def formatLine (addedLines removedLines : Nat) (line : JsString) : JsString × Nat × Nat :=
  match splitRow line with
  | none => (line, addedLines, removedLines)
  | some (sign, number, content) =>
      let lineNumber := parseInt number
      match sign with
      | .added => (js "+" ++ numberText lineNumber ++ js ":" ++ content, addedLines + 1, removedLines)
      | .removed => (js "-" ++ numberText lineNumber ++ js ":" ++ content, addedLines, removedLines + 1)
      | .context =>
          let newLineNumber := lineNumber.map fun n : Int => n + addedLines - removedLines
          (js " " ++ numberText newLineNumber ++ js ":" ++ content, addedLines, removedLines)

def formatLines (addedLines removedLines : Nat) : List JsString → List JsString × Nat × Nat
  | [] => ([], addedLines, removedLines)
  | line :: rest =>
      let (formatted, addedLines, removedLines) := formatLine addedLines removedLines line
      let (others, addedLines, removedLines) := formatLines addedLines removedLines rest
      (formatted :: others, addedLines, removedLines)

def buildCompactDiffPreview (diff : JsString) : CompactDiffPreview :=
  let lines := if diff.length = 0 then [] else splitLines diff
  let (formatted, addedLines, removedLines) := formatLines 0 0 lines
  ⟨joinLines formatted,addedLines,removedLines⟩

/-- A row of the preview, as a reader takes it. -/
structure PreviewRow where
  sign : Sign
  lineNum : Int
  content : JsString
  elision : Bool
  deriving DecidableEq, Repr

def PreviewRow.text (row : PreviewRow) : JsString :=
  row.sign.text ++ numberText (some row.lineNum) ++ js ":" ++ row.content

def renumber (addedLines removedLines : Nat) : List DiffRow → List PreviewRow
  | [] => []
  | ⟨.added,lineNum,content,elision⟩ :: rest =>
      ⟨.added,lineNum,content,elision⟩ :: renumber (addedLines + 1) removedLines rest
  | ⟨.removed,lineNum,content,elision⟩ :: rest =>
      ⟨.removed,lineNum,content,elision⟩ :: renumber addedLines (removedLines + 1) rest
  | ⟨.context,lineNum,content,elision⟩ :: rest =>
      ⟨.context,lineNum + addedLines - removedLines,content,elision⟩ :: renumber addedLines removedLines rest

def Sign.side (sign : Sign) (old new : List JsString) : List JsString :=
  match sign with
  | .removed => old
  | _ => new

/-- The row is labelled with the number its content has among the lines of its side. -/
def Anchored (old new : List JsString) (row : PreviewRow) : Prop :=
  ∃ k : Nat, row.lineNum = k + 1 ∧ (row.sign.side old new)[k]? = some row.content

def rowsOf (sign : Sign) (rows : List DiffRow) : Nat := rows.countP (·.sign = sign)

theorem renumber_append (rows more : List DiffRow) (addedLines removedLines : Nat) :
    renumber addedLines removedLines (rows ++ more) = renumber addedLines removedLines rows ++
      renumber (addedLines + rowsOf .added rows) (removedLines + rowsOf .removed rows) more := by
  induction rows generalizing addedLines removedLines with
  | nil => rfl
  | cons row rows ih =>
    obtain ⟨sign,lineNum,content,elision⟩ := row
    cases sign with
    | added => simp [renumber, rowsOf, ih, Nat.add_assoc, Nat.add_comm 1]
    | removed => simp [renumber, rowsOf, ih, Nat.add_assoc, Nat.add_comm 1]
    | context => simp [renumber, rowsOf, ih]

/- `m` lines of the old text and `n` of the new one are behind. -/
structure Tracked (old new : List JsString) (m n : Nat) (s : DiffState) : Prop where
  oldNum : s.oldLineNum = m + 1
  newNum : s.newLineNum = n + 1
  offset : rowsOf .added s.output + m = rowsOf .removed s.output + n
  anchored : ∀ row ∈ renumber 0 0 s.output, row.elision = false → Anchored old new row
  elided : ∀ row ∈ s.output, row.elision = true → row.sign = .context ∧ row.content = js "..."
  oneLine : ∀ row ∈ s.output, lineFeed ∉ row.content

section tracked
variable {old new : List JsString} {m n : Nat} {s : DiffState}

theorem Tracked.skip (tracked : Tracked old new m n s) (lines : Nat) :
    Tracked old new (m + lines) (n + lines) (s.skip lines) := by
  refine ⟨?_,?_,?_,tracked.anchored,tracked.elided,tracked.oneLine⟩
  · have at' := tracked.oldNum
    simp only [DiffState.skip]
    omega
  · have at' := tracked.newNum
    simp only [DiffState.skip]
    omega
  · have offset := tracked.offset
    simp only [DiffState.skip]
    omega

/-- A row pushed at the end is renumbered by what stands before it. -/
theorem Tracked.pushed (tracked : Tracked old new m n s) {row : DiffRow} {next : DiffState} {k l : Nat}
    (output : next.output = s.output ++ [row]) (oldNum : next.oldLineNum = k + 1) (newNum : next.newLineNum = l + 1)
    (offset : rowsOf .added [row] + k + n = rowsOf .removed [row] + l + m)
    (anchored : row.elision = false → ∀ labelled ∈ renumber (rowsOf .added s.output) (rowsOf .removed s.output) [row],
      Anchored old new labelled)
    (elided : row.elision = true → row.sign = .context ∧ row.content = js "...") (oneLine : lineFeed ∉ row.content) :
    Tracked old new k l next := by
  refine ⟨oldNum,newNum,?_,?_,?_,?_⟩
  · have before := tracked.offset
    rw [output]
    simp only [rowsOf, List.countP_append] at before offset ⊢
    omega
  · rw [output, renumber_append, Nat.zero_add, Nat.zero_add]
    intro labelled mem shown
    rcases List.mem_append.mp mem with early | last
    · exact tracked.anchored labelled early shown
    · refine anchored ?_ labelled last
      obtain ⟨sign,lineNum,content,elision⟩ := row
      cases sign <;> simp_all [renumber]
  · rw [output]
    intro other mem
    rcases List.mem_append.mp mem with early | last
    · exact tracked.elided other early
    · rw [List.mem_singleton.mp last]
      exact elided
  · rw [output]
    intro other mem
    rcases List.mem_append.mp mem with early | last
    · exact tracked.oneLine other early
    · rw [List.mem_singleton.mp last]
      exact oneLine

variable {line : JsString} {raw : List JsString}

theorem Tracked.showAdded (tracked : Tracked old new m n s) (here : new[n]? = some line) (oneLine : lineFeed ∉ line) : Tracked old new m (n + 1) (showAdded s line) := by
  have at' := tracked.newNum
  refine tracked.pushed rfl tracked.oldNum ?_ ?_ ?_ (by simp) oneLine
  · simp only [Edit.showAdded]
    omega
  · simp only [rowsOf, List.countP_cons, List.countP_nil]
    simp
    omega
  · intro _ labelled mem
    simp only [renumber, List.mem_singleton] at mem
    subst mem
    refine ⟨n,?_,here⟩
    simp only [at']
    omega

theorem Tracked.showRemoved (tracked : Tracked old new m n s) (here : old[m]? = some line) (oneLine : lineFeed ∉ line) : Tracked old new (m + 1) n (showRemoved s line) := by
  have at' := tracked.oldNum
  refine tracked.pushed rfl ?_ tracked.newNum ?_ ?_ (by simp) oneLine
  · simp only [Edit.showRemoved]
    omega
  · simp only [rowsOf, List.countP_cons, List.countP_nil]
    simp
    omega
  · intro _ labelled mem
    simp only [renumber, List.mem_singleton] at mem
    subst mem
    refine ⟨m,?_,here⟩
    simp only [at']
    omega

/-- Here the two passes meet: the old number and the offset make the new number. -/
theorem Tracked.showContext (tracked : Tracked old new m n s) (here : new[n]? = some line) (oneLine : lineFeed ∉ line) : Tracked old new (m + 1) (n + 1) (showContext s line) := by
  have at' := tracked.oldNum
  have offset := tracked.offset
  refine Tracked.skip ?_ 1
  refine tracked.pushed rfl at' tracked.newNum ?_ ?_ (by simp) oneLine
  · simp [rowsOf]
    omega
  · intro _ labelled mem
    simp only [renumber, List.mem_singleton] at mem
    subst mem
    refine ⟨n,?_,here⟩
    simp only [at']
    omega

theorem Tracked.elision (tracked : Tracked old new m n s) :
    Tracked old new m n (s.push ⟨.context,s.oldLineNum,js "...",true⟩) := by
  have dots : lineFeed ∉ js "..." := by decide
  refine tracked.pushed rfl tracked.oldNum tracked.newNum ?_ (by simp) (fun _ => ⟨rfl,rfl⟩) dots
  simp [rowsOf]
  omega

/- The next lines of a text, in order. -/
def Ahead (lines : List JsString) (n : Nat) (raw : List JsString) : Prop := ∃ rest, lines.drop n = raw ++ rest

theorem ahead_cons {lines raw : List JsString} (ahead : Ahead lines n (line :: raw)) :
    lines[n]? = some line ∧ Ahead lines (n + 1) raw := by
  obtain ⟨rest,drop⟩ := ahead
  have here : lines[n]? = some line := by
    rw [← List.head?_drop, drop]
    rfl
  refine ⟨here,rest,?_⟩
  rw [← List.tail_drop, drop]
  rfl

theorem ahead_append {lines raw more : List JsString} (ahead : Ahead lines n (raw ++ more)) :
    Ahead lines n raw ∧ Ahead lines (n + raw.length) more := by
  obtain ⟨rest,drop⟩ := ahead
  refine ⟨⟨more ++ rest,by rw [drop, List.append_assoc]⟩,rest,?_⟩
  rw [← List.drop_drop, drop, List.append_assoc, List.drop_left]

theorem tracked_context (tracked : Tracked old new m n s) (ahead : Ahead new n raw) (clean : ∀ line ∈ raw, lineFeed ∉ line) : Tracked old new (m + raw.length) (n + raw.length) (raw.foldl showContext s) := by
  induction raw generalizing m n s with
  | nil => exact tracked
  | cons line raw ih =>
    obtain ⟨here,later⟩ := ahead_cons ahead
    have next := ih (tracked.showContext here (clean line List.mem_cons_self)) later fun other mem =>
      clean other (List.mem_cons_of_mem line mem)
    rw [List.length_cons, Nat.add_comm raw.length, ← Nat.add_assoc, ← Nat.add_assoc]
    exact next

theorem tracked_added (tracked : Tracked old new m n s) (ahead : Ahead new n raw) (clean : ∀ line ∈ raw, lineFeed ∉ line) : Tracked old new m (n + raw.length) (raw.foldl showAdded s) := by
  induction raw generalizing n s with
  | nil => exact tracked
  | cons line raw ih =>
    obtain ⟨here,later⟩ := ahead_cons ahead
    have next := ih (tracked.showAdded here (clean line List.mem_cons_self)) later fun other mem =>
      clean other (List.mem_cons_of_mem line mem)
    rw [List.length_cons, Nat.add_comm raw.length, ← Nat.add_assoc]
    exact next

theorem tracked_removed (tracked : Tracked old new m n s) (ahead : Ahead old m raw) (clean : ∀ line ∈ raw, lineFeed ∉ line) : Tracked old new (m + raw.length) n (raw.foldl showRemoved s) := by
  induction raw generalizing m s with
  | nil => exact tracked
  | cons line raw ih =>
    obtain ⟨here,later⟩ := ahead_cons ahead
    have next := ih (tracked.showRemoved here (clean line List.mem_cons_self)) later fun other mem =>
      clean other (List.mem_cons_of_mem line mem)
    rw [List.length_cons, Nat.add_comm raw.length, ← Nat.add_assoc]
    exact next

theorem tracked_window {contextLimit : Nat} {window : ContextWindow} (tracked : Tracked old new m n s)
    (cuts : Cuts raw contextLimit window) (ahead : Ahead new n raw) (clean : ∀ line ∈ raw, lineFeed ∉ line) :
    Tracked old new (m + raw.length) (n + raw.length) (showWindow s contextLimit window) := by
  obtain ⟨leading,first,middle,second,trailing,rfl,skipped,left,rest,shown,limit,one⟩ := cuts
  obtain ⟨-,aheadFirst⟩ := ahead_append ahead
  obtain ⟨aheadFirst,aheadMiddle⟩ := ahead_append aheadFirst
  obtain ⟨-,aheadSecond⟩ := ahead_append aheadMiddle
  obtain ⟨aheadSecond,-⟩ := ahead_append aheadSecond
  have cleanFirst : ∀ line ∈ first, lineFeed ∉ line := fun line mem => clean line (by simp [mem])
  have cleanSecond : ∀ line ∈ second, lineFeed ∉ line := fun line mem => clean line (by simp [mem])
  have atFirst := tracked_context (tracked.skip leading.length) aheadFirst cleanFirst
  unfold showWindow
  dsimp only
  rw [skipped, shown, rest]
  by_cases middles : window.middleSkip > 0
  · rw [if_pos middles, if_pos middles, ← limit middles, List.take_left, List.drop_left, left]
    have atSecond := tracked_context (atFirst.elision.skip middle.length) aheadSecond cleanSecond
    have behind := atSecond.skip trailing.length
    simp only [List.length_append, ← Nat.add_assoc]
    exact behind
  · have none' : second = [] := one (by omega)
    have nothing : middle = [] := List.eq_nil_of_length_eq_zero (by omega)
    subst none' nothing
    rw [if_neg middles, if_neg middles, List.append_nil, List.take_length]
    have behind := atFirst.skip trailing.length
    simp only [List.length_append, List.length_nil, Nat.zero_add, ← Nat.add_assoc]
    exact behind

theorem Tracked.marked (tracked : Tracked old new m n s) (lastWasChange : Bool) (firstChangedLine : Option Nat) :
    Tracked old new m n { s with lastWasChange, firstChangedLine } :=
  ⟨tracked.oldNum,tracked.newNum,tracked.offset,tracked.anchored,tracked.elided,tracked.oneLine⟩

theorem tracked_contextPart (tracked : Tracked old new m n s) (contextLines : Int) (nextPartIsChange : Bool)
    (ahead : Ahead new n raw) (clean : ∀ line ∈ raw, lineFeed ∉ line) :
    Tracked old new (m + raw.length) (n + raw.length) (contextPart contextLines s raw nextPartIsChange) := by
  unfold contextPart
  dsimp only
  split
  · have cuts := contextWindow_cuts raw contextLines.toNat s.lastWasChange nextPartIsChange
    exact (tracked_window tracked cuts ahead clean).marked false _
  · exact (tracked.skip raw.length).marked false _

/-- Over the parts: the lines still to come are those of the parts still to come. -/
theorem tracked_parts (contextLines : Int) {parts : List DiffPart} (tracked : Tracked old new m n s)
    (oneKind : ∀ part ∈ parts, ¬ (part.added = true ∧ part.removed = true))
    (oldAhead : Ahead old m (sideLines (!·.added) parts)) (newAhead : Ahead new n (sideLines (!·.removed) parts)) :
    ∃ m n, Tracked old new m n (diffParts contextLines s parts) := by
  induction parts generalizing m n s with
  | nil => exact ⟨m,n,tracked⟩
  | cons part rest ih =>
    have others : ∀ other ∈ rest, ¬ (other.added = true ∧ other.removed = true) := fun other mem =>
      oneKind other (List.mem_cons_of_mem part mem)
    have kind := oneKind part List.mem_cons_self
    have clean := partLines_clean part.value
    rw [sideLines_cons] at oldAhead newAhead
    obtain ⟨oldHere,oldLater⟩ := ahead_append oldAhead
    obtain ⟨newHere,newLater⟩ := ahead_append newAhead
    have marked := tracked.marked s.lastWasChange (if s.firstChangedLine = none then some s.newLineNum else s.firstChangedLine)
    obtain ⟨value,added,removed⟩ := part
    unfold diffParts
    cases added with
    | true =>
      cases removed with
      | true => exact absurd ⟨rfl,rfl⟩ kind
      | false =>
        have here := tracked_added marked newHere clean
        exact ih (here.marked true _) others oldLater newLater
    | false =>
      cases removed with
      | true =>
        have here := tracked_removed marked oldHere clean
        exact ih (here.marked true _) others oldLater newLater
      | false =>
        have here := tracked_contextPart tracked contextLines (rest.head?.any DiffPart.changed) newHere clean
        exact ih here others oldLater newLater

end tracked

theorem digit_apart {c : CodeUnit} (digit : isDigit c = true) :
    isWhitespace c = false ∧ c ≠ 45 ∧ c ≠ 43 ∧ (c != barUnit) = true := by
  have each : ∀ d : Fin 10, isWhitespace (UInt16.ofNat (48 + d.1)) = false ∧ UInt16.ofNat (48 + d.1) ≠ 45 ∧
      UInt16.ofNat (48 + d.1) ≠ 43 ∧ (UInt16.ofNat (48 + d.1) != barUnit) = true := by decide
  obtain ⟨d,rfl⟩ := digit_offset digit
  exact each d

theorem parseInt_decimal (n : Nat) : parseInt (decimal n) = some (n : Int) := by
  obtain ⟨c,rest,text⟩ := List.exists_cons_of_ne_nil (decimal_ne_nil n)
  have digit := decimal_digits n c (by rw [text]; exact List.mem_cons_self)
  obtain ⟨visible,noMinus,noPlus,-⟩ := digit_apart digit
  have whole : (decimal n).takeWhile isDigit = decimal n := List.takeWhile_eq_self_iff.mpr (decimal_digits n)
  have trimmed : trimStart (decimal n) = decimal n := by
    rw [text, trimStart, List.dropWhile_cons, if_neg (by simp [visible])]
  have value := decimal_value n
  unfold parseInt
  rw [trimmed, text] at *
  simp only [List.head?_cons, Option.some.injEq, noMinus, noPlus, decide_false, Bool.false_or, Bool.or_self]
  simp [whole, value]

theorem splitRow_format (row : DiffRow) :
    splitRow (formatNumberedDiffLine row) = some (row.sign, decimal row.lineNum, row.content) := by
  obtain ⟨sign,lineNum,content,elision⟩ := row
  have noBar : ∀ c ∈ decimal lineNum, (c != barUnit) = true := fun c mem =>
    (digit_apart (decimal_digits lineNum c mem)).2.2.2
  have taken : (decimal lineNum ++ barUnit :: content).takeWhile (· != barUnit) = decimal lineNum := by
    rw [List.takeWhile_append_of_pos noBar, List.takeWhile_cons, if_neg (by simp), List.append_nil]
  have dropped : (decimal lineNum ++ barUnit :: content).dropWhile (· != barUnit) = barUnit :: content := by
    rw [List.dropWhile_append_of_pos noBar, List.dropWhile_cons, if_neg (by simp)]
  have bar : js "|" = [barUnit] := by decide
  have found : barUnit ∈ decimal lineNum ++ barUnit :: content := List.mem_append_right _ List.mem_cons_self
  have text : formatNumberedDiffLine ⟨sign,lineNum,content,elision⟩ =
      sign.text ++ (decimal lineNum ++ barUnit :: content) := by
    simp [formatNumberedDiffLine, bar]
  rw [text]
  cases sign with
  | added =>
    have plus : Sign.added.text = [43] := by decide
    simp [plus, splitRow, found, taken, dropped]
  | removed =>
    have minus : Sign.removed.text = [45] := by decide
    simp [minus, splitRow, found, taken, dropped]
  | context =>
    have blank : Sign.context.text = [space] := by decide
    simp [blank, splitRow, found, taken, dropped, space]

theorem formatLines_rows (rows : List DiffRow) (addedLines removedLines : Nat) :
    (formatLines addedLines removedLines (rows.map formatNumberedDiffLine)).1 =
      (renumber addedLines removedLines rows).map PreviewRow.text := by
  induction rows generalizing addedLines removedLines with
  | nil => rfl
  | cons row rows ih =>
    rw [List.map_cons, formatLines]
    unfold formatLine
    rw [splitRow_format]
    obtain ⟨sign,lineNum,content,elision⟩ := row
    cases sign with
    | added => simp [renumber, parseInt_decimal, PreviewRow.text, Sign.text, ih]
    | removed => simp [renumber, parseInt_decimal, PreviewRow.text, Sign.text, ih]
    | context => simp [renumber, parseInt_decimal, PreviewRow.text, Sign.text, ih]

theorem mem_renumber {rows : List DiffRow} {addedLines removedLines : Nat} {labelled : PreviewRow}
    (mem : labelled ∈ renumber addedLines removedLines rows) : ∃ row ∈ rows, row.sign = labelled.sign ∧
      row.content = labelled.content ∧ row.elision = labelled.elision := by
  induction rows generalizing addedLines removedLines with
  | nil => exact absurd mem List.not_mem_nil
  | cons row rows ih =>
    obtain ⟨sign,lineNum,content,elision⟩ := row
    cases sign with
    | added =>
      rcases List.mem_cons.mp mem with rfl | later
      · exact ⟨_,List.mem_cons_self,rfl,rfl,rfl⟩
      · obtain ⟨row,inside,same⟩ := ih later
        exact ⟨row,List.mem_cons_of_mem _ inside,same⟩
    | removed =>
      rcases List.mem_cons.mp mem with rfl | later
      · exact ⟨_,List.mem_cons_self,rfl,rfl,rfl⟩
      · obtain ⟨row,inside,same⟩ := ih later
        exact ⟨row,List.mem_cons_of_mem _ inside,same⟩
    | context =>
      rcases List.mem_cons.mp mem with rfl | later
      · exact ⟨_,List.mem_cons_self,rfl,rfl,rfl⟩
      · obtain ⟨row,inside,same⟩ := ih later
        exact ⟨row,List.mem_cons_of_mem _ inside,same⟩

theorem preview_rows {rows : List DiffRow} (oneLine : ∀ row ∈ rows, lineFeed ∉ row.content) :
    (buildCompactDiffPreview (joinLines (rows.map formatNumberedDiffLine))).preview =
      joinLines ((renumber 0 0 rows).map PreviewRow.text) := by
  cases rows with
  | nil => rfl
  | cons first rest =>
    have clean : ∀ line ∈ (first :: rest).map formatNumberedDiffLine, lineFeed ∉ line := by
      intro line mem
      obtain ⟨row,inside,rfl⟩ := List.mem_map.mp mem
      have digits := (decimal_unbroken row.lineNum).1
      have content := oneLine row inside
      have sign : lineFeed ∉ row.sign.text := by
        cases row.sign <;> decide
      have bar : lineFeed ∉ js "|" := by decide
      simp [formatNumberedDiffLine, sign, digits, bar, content]
    have some' : (joinLines ((first :: rest).map formatNumberedDiffLine)).length ≠ 0 := by
      intro none'
      have empty := List.eq_nil_of_length_eq_zero none'
      rw [List.map_cons, join_cons] at empty
      have head := congrArg List.length empty
      have sign : first.sign.text.length = 1 := by
        cases first.sign <;> decide
      simp [formatNumberedDiffLine, sign] at head
    unfold buildCompactDiffPreview
    dsimp only
    rw [if_neg some', split_join _ clean (by simp), formatLines_rows]

/-- Every added or context row of the preview is labelled with the number of its line in the new text, every
removed row with the number of its line in the old text; only the rows that stand for skipped lines are not. -/
theorem preview_anchored (diffLines : JsString → JsString → List DiffPart) (old new : JsString) (contextLines : Int)
    (correct : LineDiff old new (diffLines old new)) :
    (buildCompactDiffPreview (generateDiffString diffLines old new contextLines).diff).preview =
        joinLines ((renumber 0 0 (diffRows diffLines old new contextLines).output).map PreviewRow.text) ∧
      ∀ row ∈ renumber 0 0 (diffRows diffLines old new contextLines).output,
        (row.elision = false → Anchored (splitLines old) (splitLines new) row) ∧
        (row.elision = true → row.sign = .context ∧ row.content = js "...") := by
  have start : Tracked (partLines old) (partLines new) 0 0 ⟨[],1,1,false,none⟩ :=
    ⟨rfl,rfl,rfl,fun row mem => absurd mem List.not_mem_nil,fun row mem => absurd mem List.not_mem_nil,
      fun row mem => absurd mem List.not_mem_nil⟩
  have oldAhead : Ahead (partLines old) 0 (sideLines (!·.added) (diffLines old new)) := by
    rw [sideLines_tokens correct.old]
    exact ⟨[],by simp⟩
  have newAhead : Ahead (partLines new) 0 (sideLines (!·.removed) (diffLines old new)) := by
    rw [sideLines_tokens correct.new]
    exact ⟨[],by simp⟩
  obtain ⟨m,n,tracked⟩ := tracked_parts contextLines start correct.oneKind oldAhead newAhead
  refine ⟨preview_rows tracked.oneLine,fun row mem => ⟨fun shown => ?_,fun elided => ?_⟩⟩
  · obtain ⟨k,number,here⟩ := tracked.anchored row mem shown
    refine ⟨k,number,?_⟩
    cases sign : row.sign with
    | removed =>
      rw [sign] at here
      exact partLines_get here
    | added =>
      rw [sign] at here
      exact partLines_get here
    | context =>
      rw [sign] at here
      exact partLines_get here
  · obtain ⟨source,inside,sign,content,same⟩ := mem_renumber mem
    rw [← sign, ← content]
    exact tracked.elided source inside (same.trans elided)

def twoChanges : JsString → JsString → List DiffPart := fun _ _ =>
  [⟨js "a\n",false,true⟩, ⟨js "A\n",true,false⟩, ⟨js "b\nc\nd\ne\nf\ng\n",false,false⟩, ⟨js "h",false,true⟩,
    ⟨js "H\n",true,false⟩]

theorem preview_anchored_twoChanges : Anchored (splitLines (js "a\nb\nc\nd\ne\nf\ng\nh"))
    (splitLines (js "A\nb\nc\nd\ne\nf\ng\nH\n")) ⟨.context,6,js "f",false⟩ :=
  ((preview_anchored twoChanges (js "a\nb\nc\nd\ne\nf\ng\nh") (js "A\nb\nc\nd\ne\nf\ng\nH\n") 2
    ⟨by decide,by decide,by decide⟩).2 ⟨.context,6,js "f",false⟩ (by decide)).1 rfl

end Edit
