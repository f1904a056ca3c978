import OpenAgents.Edit.Diff
import OpenAgents.Hashline.HeaderText
import OpenAgents.Lib.Json

/- Notebooks as one text with a marker line before each cell, and the way back. -/
namespace Edit
open JsText JsJson Hashline

inductive NotebookCellType where
  | code
  | markdown
  | raw
  deriving DecidableEq, Repr

def NotebookCellType.name : NotebookCellType → JsString
  | .code => js "code"
  | .markdown => js "markdown"
  | .raw => js "raw"

inductive CellSource where
  | text (text : JsString)
  | pieces (pieces : List JsString)
  deriving DecidableEq

/- `others` are the fields the conversion does not look at. -/
structure NotebookCell where
  cellType : NotebookCellType
  source : Option CellSource
  metadata : Option Json
  executionCount : Option Json
  outputs : Option Json
  others : List (JsString × Json)
  deriving DecidableEq

structure NotebookDocument where
  cells : List NotebookCell
  others : List (JsString × Json)
  deriving DecidableEq

def sourceToText : Option CellSource → JsString
  | none => []
  | some (.text text) => text
  | some (.pieces pieces) => pieces.flatten

/- Every piece but the last ends with a line feed. -/
def splitNotebookSource : JsString → List JsString
  | [] => []
  | c :: rest =>
      if c = lineFeed then [c] :: splitNotebookSource rest
      else
        match splitNotebookSource rest with
        | [] => [[c]]
        | piece :: pieces => (c :: piece) :: pieces

def createNotebookCell (cellType : NotebookCellType) (source : JsString) : NotebookCell :=
  { cellType
    source := some (.pieces (splitNotebookSource source))
    metadata := some (.obj [])
    executionCount := if cellType = .code then some .null else none
    outputs := if cellType = .code then some (.arr []) else none
    others := [] }

def cellMarker (cellType : NotebookCellType) (index : Nat) : JsString :=
  js "# %% [" ++ cellType.name ++ js "] cell:" ++ decimal index

def cellToText (cell : NotebookCell) (index : Nat) : JsString :=
  let source := sourceToText cell.source
  if source.isEmpty then cellMarker cell.cellType index else cellMarker cell.cellType index ++ [lineFeed] ++ source

def notebookToEditableText (notebook : NotebookDocument) : JsString :=
  joinLines (notebook.cells.zipIdx.map fun (cell, index) => cellToText cell index)

structure CellMarker where
  cellType : NotebookCellType
  cellIndex : Option Nat
  deriving DecidableEq, Repr

/- `(?: cell:(\d+))?$` -/
def readCellIndex (s : JsString) : Option (Option Nat) :=
  if s.isEmpty then some none
  else
    match readLiteral (js " cell:") s with
    | none => none
    | some digits => if !digits.isEmpty && digits.all isDigit then some (some (digitsValue digits)) else none

def readMarkerOf (s : JsString) (cellType : NotebookCellType) : Option CellMarker := do
  let rest ← readLiteral (cellType.name ++ js "]") s
  let cellIndex ← readCellIndex rest
  some ⟨cellType,cellIndex⟩

/- `^# %% \[(code|markdown|raw)\](?: cell:(\d+))?$` -/
def parseVirtualCellMarker (line : JsString) : Option CellMarker := do
  let rest ← readLiteral (js "# %% [") line
  [.code, .markdown, .raw].findSome? (readMarkerOf rest)

structure ParsedVirtualCell where
  marker : CellMarker
  source : JsString
  deriving DecidableEq, Repr

structure OpenCell where
  marker : CellMarker
  lines : List JsString
  deriving DecidableEq, Repr

def OpenCell.flush (current : OpenCell) : ParsedVirtualCell := ⟨current.marker,joinLines current.lines⟩

def invalidRepresentation (displayPath : JsString) : JsString :=
  js "Invalid notebook editable representation for " ++ displayPath ++
    js ": expected first line to be \"# %% [code] cell:0\", \"# %% [markdown] cell:0\", or \"# %% [raw] cell:0\"."

def parseCells (displayPath : JsString) : Option OpenCell → List JsString → Except JsString (List ParsedVirtualCell)
  | current, [] => .ok (current.map OpenCell.flush).toList
  | current, line :: rest =>
      match parseVirtualCellMarker line, current with
      | some marker, _ => do
          let later ← parseCells displayPath (some ⟨marker,[]⟩) rest
          .ok ((current.map OpenCell.flush).toList ++ later)
      | none, none => .error (invalidRepresentation displayPath)
      | none, some cell => parseCells displayPath (some ⟨cell.marker,cell.lines ++ [line]⟩) rest

def parseNotebookEditableText (text displayPath : JsString) : Except JsString (List ParsedVirtualCell) :=
  parseCells displayPath none (if text.isEmpty then [] else splitLines text)

/- `??=`: a missing or null field takes the default. -/
def orDefault (value : Option Json) (default : Json) : Option Json :=
  match value with
  | none => some default
  | some .null => some default
  | some value => some value

def reuseCell (original : NotebookCell) (parsedCell : ParsedVirtualCell) : NotebookCell :=
  { original with
    cellType := parsedCell.marker.cellType
    source := some (.pieces (splitNotebookSource parsedCell.source))
    executionCount := if parsedCell.marker.cellType = .code then orDefault original.executionCount .null else none
    outputs := if parsedCell.marker.cellType = .code then orDefault original.outputs (.arr []) else none }

/-- A cell of the new notebook, with the index of the original it is made from. -/
structure PlacedCell where
  cell : NotebookCell
  origin : Option Nat
  deriving DecidableEq

def unusedOriginal (cells : List NotebookCell) (usedOriginalCells : List Nat) (parsedCell : ParsedVirtualCell) :
    Option (Nat × NotebookCell) := do
  let index ← parsedCell.marker.cellIndex
  let original ← cells[index]?
  if index ∈ usedOriginalCells then none else some (index, original)

def placeCells (cells : List NotebookCell) (usedOriginalCells : List Nat) : List ParsedVirtualCell → List PlacedCell
  | [] => []
  | parsedCell :: rest =>
      match unusedOriginal cells usedOriginalCells parsedCell with
      | some (index, original) =>
          ⟨reuseCell original parsedCell,some index⟩ :: placeCells cells (index :: usedOriginalCells) rest
      | none =>
          ⟨createNotebookCell parsedCell.marker.cellType parsedCell.source,none⟩ ::
            placeCells cells usedOriginalCells rest

def applyNotebookEditableText (notebook : NotebookDocument) (text displayPath : JsString) :
    Except JsString NotebookDocument := do
  let parsedCells ← parseNotebookEditableText text displayPath
  .ok { notebook with cells := (placeCells notebook.cells [] parsedCells).map PlacedCell.cell }

end Edit
