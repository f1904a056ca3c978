import OpenAgents.Hashline.Types
import OpenAgents.Lib.BacktrackingRegex
import OpenAgents.Lib.LineSplice
import Mathlib.Data.List.Sort

/- Replacement-boundary repair: which payload rows or range deletes of one
   replacement group are dropped before the edits are applied. -/
namespace Hashline
open JsText BacktrackingRegex

/- `^\s*[)\]}]+[;,]?\s*$` -/
def structuralCloserRegex : Regex :=
  let blanks := Regex.star (.set isWhitespace)
  concat [blanks, plus (anyOf (js ")]\x7d")), .optional (anyOf (js ";,")), blanks, .endOfInput]

def isStructuralCloser (line : JsString) : Bool := test structuralCloserRegex line

structure DelimiterBalance where
  paren : Int
  bracket : Int
  brace : Int
  deriving DecidableEq, Repr

/- `skipNext` and `lineDone` carry the effect of `i++` and `break` to the end of the line. -/
structure BalanceScan where
  balance : DelimiterBalance
  inBlockComment : Bool
  quoteMark : Option CodeUnit
  skipNext : Bool
  lineDone : Bool
  deriving DecidableEq, Repr

def DelimiterBalance.count (b : DelimiterBalance) (c : CodeUnit) : DelimiterBalance :=
  if c == 40 then { b with paren := b.paren + 1 }
  else if c == 41 then { b with paren := b.paren - 1 }
  else if c == 91 then { b with bracket := b.bracket + 1 }
  else if c == 93 then { b with bracket := b.bracket - 1 }
  else if c == 123 then { b with brace := b.brace + 1 }
  else if c == 125 then { b with brace := b.brace - 1 }
  else b

def scanUnit (st : BalanceScan) (c : CodeUnit) (next : Option CodeUnit) : BalanceScan :=
  if st.lineDone then st
  else if st.skipNext then { st with skipNext := false }
  else if st.inBlockComment then
    if c == 42 && next == some 47 then { st with inBlockComment := false, skipNext := true } else st
  else
    match st.quoteMark with
    | some mark =>
        if c == 92 then { st with skipNext := true }
        else if c == mark then { st with quoteMark := none }
        else st
    | none =>
        if c == 34 || c == 39 || c == 96 then { st with quoteMark := some c }
        else if c == 47 && next == some 47 then { st with lineDone := true }
        else if c == 47 && next == some 42 then { st with inBlockComment := true, skipNext := true }
        else { st with balance := st.balance.count c }

def scanUnits (st : BalanceScan) : JsString → BalanceScan
  | [] => st
  | c :: rest => scanUnits (scanUnit st c rest.head?) rest

/- `"` and `'` reset at the end of a line, backtick templates and block comments carry over. -/
def scanLine (st : BalanceScan) (line : JsString) : BalanceScan :=
  let st := scanUnits { st with skipNext := false, lineDone := false } line
  if st.quoteMark = some 34 ∨ st.quoteMark = some 39 then { st with quoteMark := none } else st

def computeDelimiterBalance (lines : List JsString) : DelimiterBalance :=
  (lines.foldl scanLine ⟨⟨0,0,0⟩,false,none,false,false⟩).balance

def balanceDelta (a b : DelimiterBalance) : DelimiterBalance :=
  ⟨a.paren - b.paren,a.bracket - b.bracket,a.brace - b.brace⟩

def balanceNegate (a : DelimiterBalance) : DelimiterBalance := ⟨-a.paren,-a.bracket,-a.brace⟩

def balanceIsZero (a : DelimiterBalance) : Bool := a == ⟨0,0,0⟩

/- `inserts` and `deletes` are the edits at the group's positions, `rest` what follows them. -/
structure ReplacementGroup where
  inserts : List InsertEdit
  deletes : List DeleteEdit
  startLine : Nat
  rest : List AppliedEdit
  deriving DecidableEq, Repr

def ReplacementGroup.payload (g : ReplacementGroup) : List JsString := g.inserts.map InsertEdit.text
def ReplacementGroup.endLine (g : ReplacementGroup) : Nat := g.startLine + g.deletes.length - 1

def takeGroupInserts (lineNum anchorLine : Nat) :
    List AppliedEdit → List InsertEdit × List AppliedEdit
  | .insert e :: rest =>
      if e.mode = .replacement ∧ e.lineNum = lineNum ∧ e.cursor = .beforeAnchor ⟨anchorLine⟩ then
        let taken := takeGroupInserts lineNum anchorLine rest
        (e :: taken.1, taken.2)
      else ([], .insert e :: rest)
  | edits => ([], edits)

def takeGroupDeletes (lineNum : Nat) : Nat → List AppliedEdit → List DeleteEdit × List AppliedEdit
  | expectedLine, .delete d :: rest =>
      if d.lineNum = lineNum ∧ d.anchor.line = expectedLine then
        let taken := takeGroupDeletes lineNum (expectedLine + 1) rest
        (d :: taken.1, taken.2)
      else ([], .delete d :: rest)
  | _, edits => ([], edits)

def findReplacementGroup (edits : List AppliedEdit) : Option ReplacementGroup :=
  match edits with
  | .insert ⟨.beforeAnchor anchor,_,lineNum,_,.replacement⟩ :: _ =>
      let inserts := takeGroupInserts lineNum anchor.line edits
      let deletes := takeGroupDeletes lineNum anchor.line inserts.2
      if deletes.1.isEmpty then none
      else some ⟨inserts.1,deletes.1,anchor.line,deletes.2⟩
  | _ => none

/- The largest candidate in `1..limit`. -/
def findLargest (limit : Nat) (accepts : Nat → Bool) : Nat :=
  ((List.range' 1 limit).reverse.find? accepts).getD 0

def lastRows (k : Nat) (rows : List JsString) : List JsString := rows.drop (rows.length - k)

def linesBelow (g : ReplacementGroup) (fileLines : List JsString) (k : Nat) : List JsString :=
  (fileLines.drop g.endLine).take k

def linesAbove (g : ReplacementGroup) (fileLines : List JsString) (j : Nat) : List JsString :=
  (fileLines.drop (g.startLine - 1 - j)).take j

def findDuplicateSuffix (g : ReplacementGroup) (fileLines : List JsString)
    (delta : DelimiterBalance) : Nat :=
  findLargest (min g.payload.length (fileLines.length - g.endLine)) fun k =>
    lastRows k g.payload == linesBelow g fileLines k &&
      (k != 1 || (g.payload.getLast?.map isStructuralCloser).getD false) &&
      computeDelimiterBalance (lastRows k g.payload) == delta

def findDuplicatePrefix (g : ReplacementGroup) (fileLines : List JsString)
    (delta : DelimiterBalance) : Nat :=
  findLargest (min g.payload.length (g.startLine - 1)) fun j =>
    g.payload.take j == linesAbove g fileLines j &&
      (j != 1 || (g.payload.head?.map isStructuralCloser).getD false) &&
      computeDelimiterBalance (g.payload.take j) == delta

/- The scan stops at the first deleted line that is no structural closer. -/
def findDroppedSuffixClosers (g : ReplacementGroup) (fileLines : List JsString)
    (delta : DelimiterBalance) : Nat :=
  let closers := (List.range' 1 g.deletes.length).takeWhile fun m =>
    isStructuralCloser (fileLines[g.endLine - m]?.getD [])
  (closers.find? fun m =>
    computeDelimiterBalance ((fileLines.drop (g.endLine - m)).take m) == balanceNegate delta).getD 0

structure BoundaryEcho where
  leading : Nat
  trailing : Nat
  deriving DecidableEq, Repr

def hasNonWhitespace (text : JsString) : Bool := text.any fun c => !(c == 32 || (9 ≤ c && c ≤ 13))

def countDuplicateLeadingBoundaryLines (g : ReplacementGroup) (fileLines : List JsString) : Nat :=
  findLargest (min g.payload.length (g.startLine - 1)) fun count =>
    g.payload.take count == linesAbove g fileLines count &&
      (g.payload.take count).any hasNonWhitespace

def countDuplicateTrailingBoundaryLines (g : ReplacementGroup) (fileLines : List JsString) : Nat :=
  findLargest (min g.payload.length (fileLines.length - g.endLine)) fun count =>
    lastRows count g.payload == linesBelow g fileLines count &&
      (lastRows count g.payload).any hasNonWhitespace

/- No echo when the two edges could claim the whole payload. -/
def findBoundaryEcho (g : ReplacementGroup) (fileLines : List JsString) : Option BoundaryEcho :=
  let leadingMax := countDuplicateLeadingBoundaryLines g fileLines
  let trailingMax := countDuplicateTrailingBoundaryLines g fileLines
  if leadingMax = 0 then none
  else if trailingMax = 0 then none
  else if g.payload.length ≤ leadingMax + trailingMax then none
  else some ⟨leadingMax,trailingMax⟩

def describeBoundaryEchoRepair (g : ReplacementGroup) (echo : BoundaryEcho) : JsString :=
  js "Auto-repaired a replacement boundary echo at line " ++ decimal g.startLine ++ js ": dropped " ++
    decimal echo.leading ++ js " leading and " ++ decimal echo.trailing ++
    js " trailing payload line(s) already present outside the range. Issue the payload as the final desired content for the selected range only — never restate unchanged lines bordering the range."

def describeBoundaryRepair (g : ReplacementGroup) (action : JsString) : JsString :=
  js "Auto-repaired a delimiter-balance mismatch in the replacement at line " ++
    decimal g.startLine ++ js ": " ++ action ++
    js ". Issue the payload as the final desired content only — never restate or omit a closing bracket bordering the range."

/-- What the repair takes away from one group: `leading` and `trailing` payload
    rows, and the last `spared` deletes of the range. -/
structure Repair where
  leading : Nat
  trailing : Nat
  spared : Nat
  warning : Option JsString
  deriving DecidableEq, Repr

def Repair.none : Repair := ⟨0,0,0,Option.none⟩

def groupDelta (g : ReplacementGroup) (fileLines : List JsString) : DelimiterBalance :=
  balanceDelta (computeDelimiterBalance g.payload)
    (computeDelimiterBalance ((fileLines.drop (g.startLine - 1)).take (g.endLine + 1 - g.startLine)))

def chooseBalanceRepair (g : ReplacementGroup) (fileLines : List JsString) : Repair :=
  let delta := groupDelta g fileLines
  let dupSuffix := findDuplicateSuffix g fileLines delta
  let dupPrefix := findDuplicatePrefix g fileLines delta
  let droppedClosers := findDroppedSuffixClosers g fileLines delta
  if balanceIsZero delta then .none
  else if 0 < dupSuffix then
    ⟨0,dupSuffix,0,some (describeBoundaryRepair g (js "dropped " ++ decimal dupSuffix ++
      js " duplicated trailing payload line(s) already present below the range"))⟩
  else if 0 < dupPrefix then
    ⟨dupPrefix,0,0,some (describeBoundaryRepair g (js "dropped " ++ decimal dupPrefix ++
      js " duplicated leading payload line(s) already present above the range"))⟩
  else if 0 < droppedClosers then
    ⟨0,0,droppedClosers,some (describeBoundaryRepair g (js "kept " ++ decimal droppedClosers ++
      js " structural closing line(s) the range deleted without restating"))⟩
  else .none

def chooseRepair (g : ReplacementGroup) (fileLines : List JsString) : Repair :=
  match findBoundaryEcho g fileLines with
  | some echo => ⟨echo.leading,echo.trailing,0,some (describeBoundaryEchoRepair g echo)⟩
  | none => chooseBalanceRepair g fileLines

def keptInserts (g : ReplacementGroup) (r : Repair) : List InsertEdit :=
  (g.inserts.take (g.inserts.length - r.trailing)).drop r.leading

def keptDeletes (g : ReplacementGroup) (r : Repair) : List DeleteEdit :=
  g.deletes.take (g.deletes.length - r.spared)

def repairedGroup (g : ReplacementGroup) (r : Repair) : List AppliedEdit :=
  (keptInserts g r).map .insert ++ (keptDeletes g r).map .delete

structure RepairResult where
  edits : List AppliedEdit
  warnings : List JsString
  deriving DecidableEq, Repr

/- One unit of fuel for each edit left to look at. -/
def repairFuel (fileLines : List JsString) : Nat → List AppliedEdit → RepairResult
  | 0, edits => ⟨edits,[]⟩
  | _ + 1, [] => ⟨[],[]⟩
  | fuel + 1, edit :: rest =>
      match findReplacementGroup (edit :: rest) with
      | none =>
          let later := repairFuel fileLines fuel rest
          ⟨edit :: later.edits,later.warnings⟩
      | some g =>
          let r := chooseRepair g fileLines
          let later := repairFuel fileLines fuel g.rest
          ⟨repairedGroup g r ++ later.edits,r.warning.toList ++ later.warnings⟩

def repairReplacementBoundaries (edits : List AppliedEdit) (fileLines : List JsString) :
    RepairResult := repairFuel fileLines edits.length edits

end Hashline

/- Applying a resolved edit list to a text body. The per-line origin tags of the
   source are never read and are left out. -/
namespace Hashline
open JsText LineSplice

def getCursorAnchors : Cursor → List Anchor
  | .beforeAnchor anchor => [anchor]
  | .afterAnchor anchor => [anchor]
  | .bof => []
  | .eof => []

def getEditAnchors : AppliedEdit → List Anchor
  | .delete d => [d.anchor]
  | .insert e => getCursorAnchors e.cursor

def outOfBounds (fileLines : List JsString) (anchor : Anchor) : Bool :=
  anchor.line < 1 || fileLines.length < anchor.line

def validateLineBounds (edits : List AppliedEdit) (fileLines : List JsString) :
    Except JsString Unit :=
  match (edits.flatMap getEditAnchors).find? (outOfBounds fileLines) with
  | some anchor =>
      .error (js "Line " ++ decimal anchor.line ++ js " does not exist (file has " ++
        decimal fileLines.length ++ js " lines)")
  | none => .ok ()

def cloneAppliedEdit (edit : AppliedEdit) (index : Nat) : AppliedEdit :=
  match edit with
  | .delete d => .delete { d with index }
  | .insert e => .insert { e with index }

def cloneAppliedEdits (edits : List AppliedEdit) : List AppliedEdit :=
  edits.zipIdx.map fun (edit, index) => cloneAppliedEdit edit index

structure IndexedEdit where
  edit : AppliedEdit
  idx : Nat
  deriving DecidableEq, Repr

/- Edits without an anchor share the key 0, which no line has. -/
def bucketLine (edit : AppliedEdit) : Nat :=
  match edit with
  | .delete d => d.anchor.line
  | .insert e =>
      match e.cursor with
      | .beforeAnchor anchor => anchor.line
      | .afterAnchor anchor => anchor.line
      | .bof => 0
      | .eof => 0

/- The keys of `byLine`, each once. -/
def bucketKeys (edits : List IndexedEdit) : List Nat :=
  (edits.map fun entry => bucketLine entry.edit).dedup

def bucketOf (edits : List IndexedEdit) (line : Nat) : List IndexedEdit :=
  edits.filter fun entry => bucketLine entry.edit = line

structure LineRows where
  before : List JsString
  replacement : List JsString
  after : List JsString
  deleteLine : Bool
  deriving DecidableEq, Repr

def LineRows.empty : LineRows := ⟨[],[],[],false⟩

def LineRows.add (rows : LineRows) (edit : AppliedEdit) : LineRows :=
  match edit with
  | .delete _ => { rows with deleteLine := true }
  | .insert e =>
      match e.mode, e.cursor with
      | .replacement, _ => { rows with replacement := rows.replacement ++ [e.text] }
      | .literal, .afterAnchor _ => { rows with after := rows.after ++ [e.text] }
      | .literal, _ => { rows with before := rows.before ++ [e.text] }

def collectRows (bucket : List IndexedEdit) : LineRows :=
  bucket.foldl (fun rows entry => rows.add entry.edit) .empty

def LineRows.isNoop (rows : LineRows) : Bool :=
  rows.before.isEmpty && rows.replacement.isEmpty && rows.after.isEmpty && !rows.deleteLine

def LineRows.render (rows : LineRows) (currentLine : JsString) : List JsString :=
  if rows.deleteLine then rows.before ++ rows.replacement ++ rows.after
  else rows.before ++ rows.replacement ++ [currentLine] ++ rows.after

def sortedBucket (edits : List IndexedEdit) (line : Nat) : List IndexedEdit :=
  (bucketOf edits line).insertionSort fun a b => a.idx ≤ b.idx

structure ApplyState where
  fileLines : List JsString
  firstChangedLine : Option Nat
  deriving DecidableEq, Repr

def trackFirstChanged (current : Option Nat) (line : Nat) : Option Nat :=
  match current with
  | none => some line
  | some first => if line < first then some line else some first

def applyLine (edits : List IndexedEdit) (st : ApplyState) (line : Nat) : ApplyState :=
  let rows := collectRows (sortedBucket edits line)
  if rows.isNoop then st
  else
    ⟨replaceAt [] (fun _ currentLine => rows.render currentLine) st.fileLines line,
      trackFirstChanged st.firstChangedLine line⟩

def insertAtStart (fileLines lines : List JsString) : List JsString :=
  if lines.isEmpty then fileLines
  else if fileLines = [[]] then splice fileLines 0 1 lines
  else splice fileLines 0 0 lines

def insertAtEnd (fileLines lines : List JsString) : List JsString × Option Nat :=
  if lines.isEmpty then (fileLines, none)
  else if fileLines = [[]] then (splice fileLines 0 1 lines, some 1)
  else
    let insertIndex :=
      if fileLines.getLast? = some [] then fileLines.length - 1 else fileLines.length
    (splice fileLines insertIndex 0 lines, some (insertIndex + 1))

def bofLine? : AppliedEdit → Option JsString
  | .insert ⟨.bof,text,_,_,_⟩ => some text
  | _ => none

def eofLine? : AppliedEdit → Option JsString
  | .insert ⟨.eof,text,_,_,_⟩ => some text
  | _ => none

def isAnchorEdit (edit : AppliedEdit) : Bool := (bofLine? edit).isNone && (eofLine? edit).isNone

def anchorEdits (edits : List AppliedEdit) : List IndexedEdit :=
  (edits.zipIdx.map fun (edit, idx) => IndexedEdit.mk edit idx).filter fun entry => isAnchorEdit entry.edit

def applyLines (edits : List AppliedEdit) (fileLines : List JsString) : ApplyState :=
  let anchored := anchorEdits edits
  ((bucketKeys anchored).insertionSort (· ≥ ·)).foldl (applyLine anchored) ⟨fileLines,none⟩

def applyRepaired (edits : List AppliedEdit) (fileLines : List JsString) : ApplyState :=
  let st := applyLines edits fileLines
  let bofLines := edits.filterMap bofLine?
  let eofLines := edits.filterMap eofLine?
  let started := insertAtStart st.fileLines bofLines
  let first :=
    if bofLines.isEmpty then st.firstChangedLine else trackFirstChanged st.firstChangedLine 1
  let ended := insertAtEnd started eofLines
  ⟨ended.1,match ended.2 with
    | none => first
    | some line => trackFirstChanged first line⟩

def appliedEdit? : Edit → Option AppliedEdit
  | .applied edit => some edit
  | .block _ => none

def applyResolved (text : JsString) (edits : List AppliedEdit) : Except JsString ApplyResult := do
  let fileLines := splitLines text
  let targetEdits := cloneAppliedEdits edits
  validateLineBounds targetEdits fileLines
  let repaired := repairReplacementBoundaries targetEdits fileLines
  let st := applyRepaired repaired.edits fileLines
  .ok ⟨joinLines st.fileLines,st.firstChangedLine,repaired.warnings⟩

def applyEdits (text : JsString) (edits : List Edit) : Except JsString ApplyResult :=
  if edits.isEmpty then .ok ⟨text,none,[]⟩
  else
    match edits.mapM appliedEdit? with
    | none => .error unresolvedBlockInternal
    | some appliedEdits => applyResolved text appliedEdits

end Hashline
