import OpenAgents.Lib.TextLines

/- The numbered diff of two texts, as rows. The line diff itself comes from a package; a row's
   `elision` is not in its text, it says which branch pushed the row. -/
namespace Edit
open JsText TextLines

inductive Sign where
  | added
  | removed
  | context
  deriving DecidableEq, Repr

def Sign.text : Sign → JsString
  | .added => js "+"
  | .removed => js "-"
  | .context => js " "

structure DiffRow where
  sign : Sign
  lineNum : Nat
  content : JsString
  elision : Bool
  deriving DecidableEq, Repr

def formatNumberedDiffLine (row : DiffRow) : JsString := row.sign.text ++ decimal row.lineNum ++ js "|" ++ row.content

structure DiffPart where
  value : JsString
  added : Bool
  removed : Bool
  deriving DecidableEq, Repr

def DiffPart.changed (part : DiffPart) : Bool := part.added || part.removed

/- `split("\n")` without an empty last piece. -/
def partLines (value : JsString) : List JsString :=
  let raw := splitLines value
  if raw.getLast? = some [] then raw.dropLast else raw

/- The lines with their terminators: what a line diff compares. -/
def lineTokens (text : JsString) : List JsString :=
  (splitLines text).dropLast.map (· ++ [lineFeed]) ++ (if lastLine text = [] then [] else [lastLine text])

/-- A correct line diff: every part is made of whole lines, the old text's in order without the added parts
and the new text's without the removed ones. -/
structure LineDiff (old new : JsString) (parts : List DiffPart) : Prop where
  oneKind : ∀ part ∈ parts, ¬ (part.added = true ∧ part.removed = true)
  old : (parts.filter (!·.added)).flatMap (fun part => lineTokens part.value) = lineTokens old
  new : (parts.filter (!·.removed)).flatMap (fun part => lineTokens part.value) = lineTokens new

structure DiffState where
  output : List DiffRow
  oldLineNum : Nat
  newLineNum : Nat
  lastWasChange : Bool
  firstChangedLine : Option Nat
  deriving DecidableEq, Repr

def DiffState.push (s : DiffState) (row : DiffRow) : DiffState := { s with output := s.output ++ [row] }

def DiffState.skip (s : DiffState) (lines : Nat) : DiffState :=
  { s with oldLineNum := s.oldLineNum + lines, newLineNum := s.newLineNum + lines }

def showAdded (s : DiffState) (line : JsString) : DiffState :=
  { s.push ⟨.added,s.newLineNum,line,false⟩ with newLineNum := s.newLineNum + 1 }

def showRemoved (s : DiffState) (line : JsString) : DiffState :=
  { s.push ⟨.removed,s.oldLineNum,line,false⟩ with oldLineNum := s.oldLineNum + 1 }

def showContext (s : DiffState) (line : JsString) : DiffState := (s.push ⟨.context,s.oldLineNum,line,false⟩).skip 1

structure ContextWindow where
  leadingSkip : Nat
  middleSkip : Nat
  trailingSkip : Nat
  linesToShow : List JsString

def contextWindow (raw : List JsString) (contextLimit : Nat) (lastWasChange nextPartIsChange : Bool) : ContextWindow :=
  if lastWasChange && nextPartIsChange then
    if raw.length > contextLimit * 2 then
      let leadingContext := raw.take contextLimit
      let trailingContext := raw.drop (raw.length - contextLimit)
      ⟨0,raw.length - leadingContext.length - trailingContext.length,0,leadingContext ++ trailingContext⟩
    else ⟨0,0,0,raw⟩
  else if nextPartIsChange then
    let leadingSkip := raw.length - contextLimit
    ⟨leadingSkip,0,0,raw.drop leadingSkip⟩
  else ⟨0,0,raw.length - contextLimit,raw.take contextLimit⟩

def showWindow (s : DiffState) (contextLimit : Nat) (window : ContextWindow) : DiffState :=
  let firstChunkLength := if window.middleSkip > 0 then contextLimit else window.linesToShow.length
  let s := (window.linesToShow.take firstChunkLength).foldl showContext (s.skip window.leadingSkip)
  let s :=
    if window.middleSkip > 0 then
      let s := (s.push ⟨.context,s.oldLineNum,js "...",true⟩).skip window.middleSkip
      (window.linesToShow.drop firstChunkLength).foldl showContext s
    else s
  s.skip window.trailingSkip

def contextPart (contextLines : Int) (s : DiffState) (raw : List JsString) (nextPartIsChange : Bool) : DiffState :=
  let shown :=
    if s.lastWasChange || nextPartIsChange then
      -- `Math.max(0, contextLines)`
      let contextLimit := contextLines.toNat
      showWindow s contextLimit (contextWindow raw contextLimit s.lastWasChange nextPartIsChange)
    else s.skip raw.length
  { shown with lastWasChange := false }

def changedPart (s : DiffState) (part : DiffPart) (raw : List JsString) : DiffState :=
  let s := { s with firstChangedLine := if s.firstChangedLine = none then some s.newLineNum else s.firstChangedLine }
  let s := if part.added then raw.foldl showAdded s else raw.foldl showRemoved s
  { s with lastWasChange := true }

def diffParts (contextLines : Int) (s : DiffState) : List DiffPart → DiffState
  | [] => s
  | part :: rest =>
      let raw := partLines part.value
      let s :=
        if part.changed then changedPart s part raw
        else contextPart contextLines s raw (rest.head?.any DiffPart.changed)
      diffParts contextLines s rest

structure DiffResult where
  diff : JsString
  firstChangedLine : Option Nat
  deriving DecidableEq, Repr

def diffRows (diffLines : JsString → JsString → List DiffPart) (oldContent newContent : JsString) (contextLines : Int) :
    DiffState :=
  diffParts contextLines ⟨[],1,1,false,none⟩ (diffLines oldContent newContent)

/- `contextLines` is 2 where a caller gives none. -/
def generateDiffString (diffLines : JsString → JsString → List DiffPart) (oldContent newContent : JsString)
    (contextLines : Int) : DiffResult :=
  let s := diffRows diffLines oldContent newContent contextLines
  ⟨joinLines (s.output.map formatNumberedDiffLine),s.firstChangedLine⟩

/- The terminator, if there is one, is not part of the line. -/
def tokenLine (token : JsString) : JsString := if endsWithLineFeed token then token.dropLast else token

theorem tokenLine_terminated (line : JsString) : tokenLine (line ++ [lineFeed]) = line := by
  rw [tokenLine, if_pos (endsWith_append_lineFeed line), List.dropLast_concat]

theorem partLines_tokens (text : JsString) : partLines text = (lineTokens text).map tokenLine := by
  have whole : ((splitLines text).dropLast.map (· ++ [lineFeed])).map tokenLine = (splitLines text).dropLast := by
    rw [List.map_map]
    exact List.map_id'' (fun line => tokenLine_terminated line) _
  have split := split_whole_last text
  have last : (splitLines text).getLast? = some (lastLine text) := by
    rw [split]
    simp
  rw [partLines, lineTokens, List.map_append, whole, last]
  by_cases empty : lastLine text = []
  · simp [empty]
  · have unterminated : tokenLine (lastLine text) = lastLine text := by
      have clean := lastLine_clean text
      rw [tokenLine, if_neg]
      intro ends
      obtain ⟨front,text'⟩ := (ends_iff _).mp ends
      exact clean (text' ▸ List.mem_append_right _ List.mem_cons_self)
    simp only [empty, Option.some.injEq, if_false, List.map_cons, unterminated, List.map_nil]
    exact split

theorem partLines_lines (text : JsString) : partLines text <+: splitLines text := by
  unfold partLines
  dsimp only
  split
  · exact List.dropLast_prefix _
  · exact List.prefix_rfl

theorem partLines_get {text line : JsString} {k : Nat} (here : (partLines text)[k]? = some line) :
    (splitLines text)[k]? = some line := by
  obtain ⟨rest,split⟩ := partLines_lines text
  obtain ⟨inside,-⟩ := List.getElem?_eq_some_iff.mp here
  rw [← split, List.getElem?_append_left inside]
  exact here

theorem partLines_clean (text : JsString) : ∀ line ∈ partLines text, lineFeed ∉ line :=
  fun line mem => split_clean text line ((partLines_lines text).subset mem)

/- The lines of the parts a text keeps. -/
def sideLines (keep : DiffPart → Bool) (parts : List DiffPart) : List JsString :=
  (parts.filter keep).flatMap fun part => partLines part.value

theorem sideLines_tokens {keep : DiffPart → Bool} {parts : List DiffPart} {text : JsString}
    (same : (parts.filter keep).flatMap (fun part => lineTokens part.value) = lineTokens text) :
    sideLines keep parts = partLines text := by
  rw [partLines_tokens, ← same, sideLines, List.map_flatMap]
  exact List.flatMap_congr fun part _ => partLines_tokens part.value

theorem sideLines_cons (keep : DiffPart → Bool) (part : DiffPart) (rest : List DiffPart) :
    sideLines keep (part :: rest) = (if keep part then partLines part.value else []) ++ sideLines keep rest := by
  unfold sideLines
  rw [List.filter_cons]
  split <;> simp

/- What a window shows and skips are the lines of the part, in order. -/
def Cuts (raw : List JsString) (contextLimit : Nat) (window : ContextWindow) : Prop :=
  ∃ leading first middle second trailing, raw = leading ++ (first ++ (middle ++ (second ++ trailing))) ∧
    window.leadingSkip = leading.length ∧ window.middleSkip = middle.length ∧ window.trailingSkip = trailing.length ∧
    window.linesToShow = first ++ second ∧ (window.middleSkip > 0 → first.length = contextLimit) ∧
    (window.middleSkip = 0 → second = [])

theorem contextWindow_cuts (raw : List JsString) (contextLimit : Nat) (lastWasChange nextPartIsChange : Bool) :
    Cuts raw contextLimit (contextWindow raw contextLimit lastWasChange nextPartIsChange) := by
  unfold contextWindow
  split
  · split
    · rename_i long
      have back : (raw.drop (raw.length - contextLimit)).length = contextLimit := by
        rw [List.length_drop]
        omega
      have front : (raw.take contextLimit).length = contextLimit := by
        rw [List.length_take]
        omega
      refine ⟨[],raw.take contextLimit,(raw.drop contextLimit).take (raw.length - contextLimit - contextLimit),
        raw.drop (raw.length - contextLimit),[],?_,rfl,?_,rfl,rfl,fun _ => front,?_⟩
      · have tail : raw.drop (raw.length - contextLimit) =
            (raw.drop contextLimit).drop (raw.length - contextLimit - contextLimit) := by
          rw [List.drop_drop]
          congr 1
          omega
        rw [tail, List.nil_append, List.append_nil, List.take_append_drop, List.take_append_drop]
      · dsimp only
        rw [front, back, List.length_take, List.length_drop]
        omega
      · intro none'
        dsimp only at none'
        omega
    · exact ⟨[],raw,[],[],[],by simp,rfl,rfl,rfl,by simp,by simp,fun _ => rfl⟩
  · split
    · refine ⟨raw.take (raw.length - contextLimit),raw.drop (raw.length - contextLimit),[],[],[],by simp,?_,rfl,rfl,
        by simp,by simp,fun _ => rfl⟩
      rw [List.length_take]
      exact (Nat.min_eq_left (Nat.sub_le _ _)).symm
    · refine ⟨[],raw.take contextLimit,[],[],raw.drop contextLimit,by simp,rfl,rfl,?_,by simp,by simp,fun _ => rfl⟩
      rw [List.length_drop]

end Edit
