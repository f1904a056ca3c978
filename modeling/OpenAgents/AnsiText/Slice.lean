import OpenAgents.AnsiText.Wrap

/- Cutting a text by columns: truncation to a width, the slice of a range, and the segments around an overlay. -/
namespace AnsiText
open JsText WhileLoop RunScanner

inductive Ellipsis where
  | unicode
  | ascii
  | omit
  deriving DecidableEq

def Ellipsis.units : Ellipsis → JsString
  | .unicode => [0x2026]
  | .ascii => [0x2e, 0x2e, 0x2e]
  | .omit => []

def Ellipsis.width : Ellipsis → Nat
  | .unicode => 1
  | .ascii => 3
  | .omit => 0

/- What was kept, its width, and whether everything was. -/
structure Taken where
  out : JsString
  w : Nat
  all : Bool

def takeFitting (limit : Nat) : List Cell → JsString → Nat → Taken
  | [], out, w => ⟨out,w,true⟩
  | cell :: later, out, w =>
      if limit < w + cell.width then ⟨out,w,false⟩ else takeFitting limit later (out ++ cell.units) (w + cell.width)

structure Truncating where
  out : JsString
  w : Nat
  sawSgr : Bool

def padTo (maxWidth outW : Nat) : JsString := List.replicate (maxWidth - outW) space

section cut
variable (host : Segmentation) (tabWidth : Nat)

/- An ASCII run that is cut ends the scan when the width is used up, another run when it is cut. -/
def truncateScanner (targetW : Nat) : Scanner CodeUnit Truncating where
  running _ := true
  sequence s q := { s with out := s.out ++ q, sawSgr := s.sawSgr || isSgr q }
  lone s c := { s with out := s.out ++ [c] }
  run s segment :=
    let taken := takeFitting targetW (cells host tabWidth segment) s.out s.w
    ({ s with out := taken.out, w := taken.w }, if isAscii segment then decide (taken.w < targetW) else taken.all)

def resetSgr : JsString := [esc, 91, 48, 109]

def truncated (s : Truncating) (ellipsis : Ellipsis) (maxWidth : Nat) (pad : Bool) : JsString :=
  s.out ++ (if s.sawSgr then resetSgr else []) ++ ellipsis.units ++ if pad then padTo maxWidth (s.w + ellipsis.width) else []

def cutEllipsis (ellipsis : Ellipsis) (maxWidth : Nat) (pad : Bool) : JsString :=
  let taken := takeFitting maxWidth (graphemeCells host tabWidth ellipsis.units) [] 0
  taken.out ++ if pad then padTo maxWidth taken.w else []

end cut

def truncateToWidth (host : Segmentation) (fuel : Nat) (text : JsString) (maxWidth : Nat) (ellipsisKind : Option Ellipsis)
    (pad : Option Bool) (tabWidth : Nat) : Option JsString := do
  let ellipsis := ellipsisKind.getD .unicode
  let padded := pad.getD false
  let cellTab := clampTabWidth tabWidth
  let (textW, exceeded) ← visibleWidthUpTo host cellTab fuel text (some maxWidth)
  if exceeded = false then
    if padded && decide (textW < maxWidth) then some (buildUtf16String (text ++ padTo maxWidth textW)) else some text
  else
    let targetW := maxWidth - ellipsis.width
    if targetW = 0 then some (buildUtf16String (cutEllipsis host cellTab ellipsis maxWidth padded))
    else
      let (s, _) ← loop (scanStep escapes (truncateScanner host cellTab targetW)) fuel (⟨[],0,false⟩, text)
      some (buildUtf16String (truncated s ellipsis maxWidth padded))

def clampU32 (width : Nat) : Nat := min width u32Max

structure Slicing where
  out : JsString
  outW : Nat
  currentCol : Nat
  pendingAnsi : List JsString

/- The escape sequences straight after the position, as far as they go. -/
def trailStep : JsString × JsString → (JsString × JsString) ⊕ JsString
  | (out, rest) =>
      match ansiSeqLen rest with
      | some n => .inl (out ++ rest.take n, rest.drop n)
      | none => .inr out

section slice
variable (host : Segmentation) (tabWidth startCol endCol : Nat) (strict : Bool)

def sliceCell (s : Slicing) (cell : Cell) : Slicing :=
  let inRange := startCol ≤ s.currentCol
  let fits := strict = false ∨ s.currentCol + cell.width ≤ endCol
  if inRange ∧ fits then
    { out := s.out ++ s.pendingAnsi.flatten ++ cell.units
      outW := s.outW + cell.width
      currentCol := s.currentCol + cell.width
      pendingAnsi := [] }
  else { s with currentCol := s.currentCol + cell.width }

def sliceCells : List Cell → Slicing → Slicing
  | [], s => s
  | cell :: later, s => if endCol ≤ s.currentCol then s else sliceCells later (sliceCell startCol endCol strict s cell)

def sliceScanner : Scanner CodeUnit Slicing where
  running s := s.currentCol < endCol
  sequence s q :=
    if startCol ≤ s.currentCol then { s with out := s.out ++ q } else { s with pendingAnsi := s.pendingAnsi ++ [q] }
  lone s c := if startCol ≤ s.currentCol then { s with out := s.out ++ [c] } else s
  run s segment := (sliceCells startCol endCol strict (cells host tabWidth segment) s, true)

def sliceWithWidthImpl (fuel : Nat) (line : JsString) : Option (JsString × Nat) := do
  let (s, rest) ← loop (scanStep escapes (sliceScanner host tabWidth startCol endCol strict)) fuel (⟨[],0,0,[]⟩, line)
  let out ← loop trailStep fuel (s.out, rest)
  some (out, s.outW)

end slice

structure SliceResult where
  text : JsString
  width : Nat
  deriving DecidableEq

def sliceWithWidth (host : Segmentation) (fuel : Nat) (line : JsString) (startCol length : Nat) (strict : Option Bool)
    (tabWidth : Nat) : Option SliceResult :=
  if length = 0 then some ⟨buildUtf16String [],0⟩
  else
    (sliceWithWidthImpl host (clampTabWidth tabWidth) startCol (startCol + length) (strict.getD false) fuel line).map
      fun (out, w) => ⟨buildUtf16String out,clampU32 w⟩

structure Extracting where
  before : JsString
  beforeW : Nat
  after : JsString
  afterW : Nat
  currentCol : Nat
  pendingBeforeAnsi : List JsString
  afterStarted : Bool
  state : AnsiState

section extract
variable (host : Segmentation) (tabWidth beforeEnd afterStart afterEnd doneCol : Nat) (strictAfter : Bool)

def extractCell (s : Extracting) (cell : Cell) : Extracting :=
  if s.currentCol < beforeEnd then
    { s with before := s.before ++ s.pendingBeforeAnsi.flatten ++ cell.units
             beforeW := s.beforeW + cell.width
             currentCol := s.currentCol + cell.width
             pendingBeforeAnsi := [] }
  else if afterStart ≤ s.currentCol ∧ s.currentCol < afterEnd ∧ (strictAfter = false ∨ s.currentCol + cell.width ≤ afterEnd) then
    { s with after := s.after ++ (if s.afterStarted then [] else writeRestore s.state) ++ cell.units
             afterW := s.afterW + cell.width
             currentCol := s.currentCol + cell.width
             afterStarted := true }
  else { s with currentCol := s.currentCol + cell.width }

def extractCells : List Cell → Extracting → Extracting
  | [], s => s
  | cell :: later, s =>
      if doneCol ≤ s.currentCol then s else extractCells later (extractCell beforeEnd afterStart afterEnd strictAfter s cell)

/- Inside `after` once it has begun. -/
def extendsAfter (s : Extracting) : Bool :=
  decide (afterStart ≤ s.currentCol) && decide (s.currentCol < afterEnd) && s.afterStarted

def extractScanner : Scanner CodeUnit Extracting where
  running s := s.currentCol < doneCol
  sequence s q :=
    let read := { s with state := readEscape s.state q }
    if s.currentCol < beforeEnd then { read with pendingBeforeAnsi := s.pendingBeforeAnsi ++ [q] }
    else if extendsAfter afterStart afterEnd s then { read with after := s.after ++ q }
    else read
  lone s c :=
    if s.currentCol < beforeEnd then { s with before := s.before ++ [c] }
    else if extendsAfter afterStart afterEnd s then { s with after := s.after ++ [c] }
    else s
  run s segment := (extractCells beforeEnd afterStart afterEnd doneCol strictAfter (cells host tabWidth segment) s, true)

end extract

structure ExtractSegmentsResult where
  before : JsString
  beforeWidth : Nat
  after : JsString
  afterWidth : Nat
  deriving DecidableEq

def extractSegments (host : Segmentation) (fuel : Nat) (line : JsString) (beforeEnd afterStart afterLen : Nat)
    (strictAfter : Bool) (tabWidth : Nat) : Option ExtractSegmentsResult :=
  let afterEnd := afterStart + afterLen
  let doneCol := if afterLen = 0 then beforeEnd else afterEnd
  let scanner := extractScanner host (clampTabWidth tabWidth) beforeEnd afterStart afterEnd doneCol strictAfter
  (loop (scanStep escapes scanner) fuel (⟨[],0,[],0,0,[],false,fresh⟩, line)).map fun (s, _) =>
    ⟨buildUtf16String s.before,clampU32 s.beforeW,buildUtf16String s.after,clampU32 s.afterW⟩

end AnsiText
