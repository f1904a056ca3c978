import OpenAgents.Lib.JsText
import OpenAgents.Lib.TextReplace
import OpenAgents.Lib.TerminalScreen

/- The differential renderer of the terminal UI: a frame is composed, mapped onto one render intent and
   written by the emitter of that intent, which also keeps the account of what the terminal shows. -/
namespace TuiRenderer
open JsText TextReplace TerminalScreen

/-- The terminal and the process it runs in. The width of a text and its truncation are the native text
    engine's. -/
structure Host where
  columns : Nat
  rows : Nat
  visibleWidthRaw : JsString → Nat
  truncateToWidth : JsString → Nat → JsString
  isImageLine : JsString → Bool
  isMultiplexerSession : Bool
  isTermuxSession : Bool
  isWin32 : Bool
  eagerEraseScrollbackRisk : Bool

/-- Where the renderer asks the terminal whether its native viewport is at the bottom. -/
inductive Probe where
  | overlay
  | history
  | shrink
  | suffix
  | width
  | append
  | structural
  | offscreen
  | geometry
  | checkpoint
  deriving DecidableEq

/-- What a render reads: the lines of the components, the lines with the overlays put over them when the
    overlay stack is not empty, whether an overlay is visible, and the answers of the viewport probe. -/
structure Frame where
  rendered : List JsString
  composited : Option (List JsString)
  hasOverlay : Bool
  isNativeViewportAtBottom : Probe → Option Bool

inductive RenderIntent where
  | noop
  | initial
  | sessionReplace
  | historyRebuild
  | overlayRebuild
  | viewportRepaint (appendFrom : Option Nat)
  | deferredShrink (paddedLength : Nat)
  | deferredMutation
  | shrink
  | diff (firstChanged lastChanged : Nat) (appendedLines : Bool)
  deriving DecidableEq

structure Tui where
  previousLines : List JsString
  previousWidth : Nat
  previousHeight : Nat
  hardwareCursorRow : Int
  viewportTopRow : Nat
  showHardwareCursor : Bool
  clearOnShrink : Bool
  maxLinesRendered : Nat
  scrollbackHighWater : Nat
  suppressNextSuffixScroll : Bool
  nativeScrollbackDirty : Bool
  clearScrollbackOnNextRender : Bool
  forceViewportRepaintOnNextRender : Bool
  allowUnknownViewportMutationOnNextRender : Bool
  eagerNativeScrollbackRebuild : Bool
  hasEverRendered : Bool
  deriving DecidableEq

def newTui (showHardwareCursor clearOnShrink : Bool) : Tui where
  previousLines := []
  previousWidth := 0
  previousHeight := 0
  hardwareCursorRow := 0
  viewportTopRow := 0
  showHardwareCursor := showHardwareCursor
  clearOnShrink := clearOnShrink
  maxLinesRendered := 0
  scrollbackHighWater := 0
  suppressNextSuffixScroll := false
  nativeScrollbackDirty := false
  clearScrollbackOnNextRender := false
  forceViewportRepaintOnNextRender := false
  allowUnknownViewportMutationOnNextRender := false
  eagerNativeScrollbackRebuild := false
  hasEverRendered := false

structure CursorPos where
  row : Nat
  col : Nat
  deriving DecidableEq

def escape : CodeUnit := 0x1B
def bell : CodeUnit := 7
def segmentReset : JsString := escape :: js "[0m"
def lineTerminator : JsString := (escape :: js "[0m") ++ (escape :: js "]8;;") ++ [bell]
def cursorMarker : JsString := (escape :: js "_pi:c") ++ [bell]
def hyperlinkStart : JsString := escape :: js "]8;"

def terminatorFor (line : JsString) : JsString := if hyperlinkStart <:+: line then lineTerminator else segmentReset

/- The two vowels that terminals render inconsistently are written in two letters. -/
def normalizeTerminalOutput (line : JsString) : JsString :=
  line.flatMap fun c => if c == 0x0E33 then [0x0E4D, 0x0E32] else if c == 0x0EB3 then [0x0ECD, 0x0EB2] else [c]

section compose
variable (host : Host)

def visibleWidth (line : JsString) : Nat := if line.isEmpty then 0 else host.visibleWidthRaw line

/- The lowest marked line of the visible window places the cursor. No marker is left in any line. -/
def extractCursorPosition (lines : List JsString) : Option CursorPos × List JsString :=
  let viewportTop := lines.length - host.rows
  let marked := (List.range lines.length).filter fun row =>
    decide (viewportTop ≤ row) && (firstAt cursorMarker (lines.getD row [])).isSome
  let cursor := marked.getLast?.map fun row =>
    ⟨row,visibleWidth host ((lines.getD row []).take ((firstAt cursorMarker (lines.getD row [])).getD 0))⟩
  (cursor, lines.map fun line => replaceAll line cursorMarker [])

def applyLineReset (line : JsString) : JsString :=
  if host.isImageLine line then line
  else normalizeTerminalOutput line ++ terminatorFor (normalizeTerminalOutput line)

def fitLineToWidth (line : JsString) : JsString :=
  if host.isImageLine line then line
  else if visibleWidth host line ≤ host.columns then line
  else host.truncateToWidth line host.columns ++ terminatorFor (host.truncateToWidth line host.columns)

def composeLine (line : JsString) : JsString :=
  fitLineToWidth host (applyLineReset host (replaceAll line cursorMarker []))

/- The lines that are diffed, written and kept, and where the cursor goes. -/
def compose (lines : List JsString) : Option CursorPos × List JsString :=
  let (cursorPos, stripped) := extractCursorPosition host lines
  (cursorPos, stripped.map fun line => fitLineToWidth host (applyLineReset host line))

end compose

/- `firstChanged` is `none` for the -1 of two identical frames. -/
structure LineDiff where
  firstChanged : Option Nat
  lastChanged : Option Nat
  appendedLines : Bool
  deriving DecidableEq

/- A missing line counts as an empty one. -/
def changedRows (previousLines newLines : List JsString) : List Nat :=
  (List.range (max newLines.length previousLines.length)).filter fun i => previousLines.getD i [] ≠ newLines.getD i []

def diffLines (previousLines newLines : List JsString) : LineDiff :=
  let changed := changedRows previousLines newLines
  if previousLines.length < newLines.length then
    ⟨some (changed.head?.getD previousLines.length),some (newLines.length - 1),true⟩
  else ⟨changed.head?,changed.getLast?,false⟩

/- How many lines before `end` in the new frame are the last lines of the previous one. -/
def matchedTail : List JsString → List JsString → Nat
  | previous :: previousRest, line :: rest => if previous = line then matchedTail previousRest rest + 1 else 0
  | _, _ => 0

/- The longest match wins, and of two equally long ones the lower. -/
def bestTail (previousLines newLines : List JsString) : Nat → Option (Nat × Nat) → Option (Nat × Nat)
  | 0, best => best
  | stop + 1, best =>
      let length := matchedTail previousLines.reverse (newLines.take (stop + 1)).reverse
      let bestLength := (best.map (·.2)).getD 0
      bestTail previousLines newLines stop (if bestLength < length then some (stop, length) else best)

def findAppendedTailStart (previousLines newLines : List JsString) : Nat :=
  if previousLines.isEmpty then newLines.length
  else ((bestTail previousLines newLines newLines.length none).map (·.1 + 1)).getD newLines.length

section plan
variable (host : Host)

def nativeViewportIsScrolled (atBottom : Option Bool) (allowUnknownViewportMutation : Bool) : Bool :=
  atBottom == some false || (atBottom == none && host.isWin32 && !allowUnknownViewportMutation)

def nativeViewportIsKnownScrolled (atBottom : Option Bool) : Bool := atBottom == some false
def nativeViewportIsAtBottom (atBottom : Option Bool) : Bool := atBottom == some true

def canReplayNativeScrollbackAtCheckpoint (atBottom : Option Bool) (allowUnknownViewport : Bool) : Bool :=
  atBottom == some true || (atBottom == none && (allowUnknownViewport || !host.isWin32))

def canRebuildNativeScrollbackLive (atBottom : Option Bool) (allowUnknownViewportMutation : Bool) : Bool :=
  atBottom == some true || (atBottom == none && allowUnknownViewportMutation)

/-- An intent, and the two marks that classifying a frame may change. -/
structure Plan where
  intent : RenderIntent
  nativeScrollbackDirty : Bool
  suppressNextSuffixScroll : Bool
  deriving DecidableEq

/-- What the classification is given besides the frame. -/
structure Planning where
  newLines : List JsString
  widthChanged : Bool
  heightChanged : Bool
  prevViewportTop : Nat
  allowUnknownViewportMutation : Bool

variable (s : Tui) (frame : Frame) (p : Planning)

def Planning.contentGrew : Bool := s.previousLines.length < p.newLines.length
def Planning.pureAppend (first : Nat) : Bool := p.contentGrew s && first == s.previousLines.length

/- The new frame re-exposes rows that are in the native scrollback. -/
def planCommittedShrink : Plan :=
  let atBottom := frame.isNativeViewportAtBottom .shrink
  if nativeViewportIsScrolled host atBottom p.allowUnknownViewportMutation then
    ⟨.deferredShrink s.previousLines.length,true,s.suppressNextSuffixScroll⟩
  else if p.widthChanged || canRebuildNativeScrollbackLive atBottom p.allowUnknownViewportMutation then
    ⟨.historyRebuild,s.nativeScrollbackDirty,s.suppressNextSuffixScroll⟩
  else if atBottom == none && decide (p.newLines.length ≤ host.rows) then
    ⟨.viewportRepaint none,true,s.suppressNextSuffixScroll⟩
  else if p.newLines.length ≤ s.previousLines.length - host.rows then
    ⟨.historyRebuild,s.nativeScrollbackDirty,s.suppressNextSuffixScroll⟩
  else ⟨.deferredShrink s.previousLines.length,true,s.suppressNextSuffixScroll⟩

/- The frame after a replay: what is inserted in the visible suffix stays out of the scrollback. -/
def planSuffix (first : Nat) : Plan :=
  if findAppendedTailStart s.previousLines p.newLines = p.newLines.length ∧ p.prevViewportTop ≤ first ∧
      p.newLines.length - host.rows ≤ s.previousLines.length - host.rows then
    ⟨.viewportRepaint none,s.nativeScrollbackDirty,false⟩
  else if canRebuildNativeScrollbackLive (frame.isNativeViewportAtBottom .suffix) p.allowUnknownViewportMutation then
    ⟨.historyRebuild,s.nativeScrollbackDirty,false⟩
  else ⟨.viewportRepaint none,true,false⟩

def planUnchanged : RenderIntent :=
  if s.forceViewportRepaintOnNextRender then .viewportRepaint none
  else if p.widthChanged then .viewportRepaint none
  else if p.heightChanged && !host.isTermuxSession && !host.isMultiplexerSession then .viewportRepaint none
  else .noop

/- What is left once history needs no rebuild for the change. -/
def planInPlace (diff : LineDiff) (first : Nat) : Plan :=
  let resized := p.heightChanged && !host.isTermuxSession && !host.isMultiplexerSession
  if resized && !p.contentGrew s then ⟨.viewportRepaint none,s.nativeScrollbackDirty,false⟩
  else if resized && decide (p.newLines.length ≤ host.rows) then ⟨.viewportRepaint none,s.nativeScrollbackDirty,false⟩
  else if s.clearOnShrink && decide (p.newLines.length < s.previousLines.length) && frame.composited.isNone then
    ⟨.viewportRepaint none,s.nativeScrollbackDirty,false⟩
  else if p.newLines.length ≤ first then ⟨.shrink,s.nativeScrollbackDirty,false⟩
  else if first < p.prevViewportTop then
    let cleanTailAppend :=
      diff.appendedLines && findAppendedTailStart s.previousLines p.newLines == s.previousLines.length
    if !host.isMultiplexerSession &&
        canRebuildNativeScrollbackLive (frame.isNativeViewportAtBottom .offscreen) p.allowUnknownViewportMutation then
      ⟨.historyRebuild,s.nativeScrollbackDirty,false⟩
    else ⟨.viewportRepaint (if cleanTailAppend then some s.previousLines.length else none),true,false⟩
  else if s.forceViewportRepaintOnNextRender && host.isMultiplexerSession then
    ⟨.viewportRepaint none,s.nativeScrollbackDirty,false⟩
  else if s.forceViewportRepaintOnNextRender && p.pureAppend s first && decide (host.rows ≤ s.previousLines.length) then
    ⟨.viewportRepaint (some s.previousLines.length),s.nativeScrollbackDirty,false⟩
  else if s.forceViewportRepaintOnNextRender && p.newLines.length == s.previousLines.length &&
      decide (p.prevViewportTop ≤ first) then
    ⟨.viewportRepaint none,s.nativeScrollbackDirty,false⟩
  else ⟨.diff first (diff.lastChanged.getD 0) diff.appendedLines,s.nativeScrollbackDirty,false⟩

/-- A frame that a scrolled reader is not to be disturbed by: dropped when the terminal says so, and
    painted over the window when it says nothing. -/
def planScrolled (atBottom : Option Bool) : Plan :=
  ⟨if nativeViewportIsKnownScrolled atBottom then .deferredMutation else .viewportRepaint none,true,false⟩

def planMutation (diff : LineDiff) (first : Nat) : Plan :=
  let structuralMutation :=
    p.newLines.length != s.previousLines.length || decide (first < p.prevViewportTop)
  if p.pureAppend s first && decide (host.rows < s.previousLines.length) && !host.isMultiplexerSession &&
      nativeViewportIsScrolled host (frame.isNativeViewportAtBottom .append) p.allowUnknownViewportMutation then
    planScrolled (frame.isNativeViewportAtBottom .append)
  else if !p.pureAppend s first && structuralMutation && !host.isMultiplexerSession then
    let atBottom := frame.isNativeViewportAtBottom .structural
    let appendedTailStart :=
      if diff.appendedLines then findAppendedTailStart s.previousLines p.newLines else p.newLines.length
    if nativeViewportIsScrolled host atBottom p.allowUnknownViewportMutation then planScrolled atBottom
    else if p.contentGrew s && decide (first < p.prevViewportTop) && canRebuildNativeScrollbackLive atBottom false &&
        p.newLines.length - s.previousLines.length != p.newLines.length - appendedTailStart then
      ⟨.historyRebuild,s.nativeScrollbackDirty,false⟩
    else if p.newLines.length != s.previousLines.length && decide (0 < s.scrollbackHighWater) &&
        canRebuildNativeScrollbackLive atBottom p.allowUnknownViewportMutation then
      ⟨.historyRebuild,s.nativeScrollbackDirty,false⟩
    else planInPlace host s frame p diff first
  else planInPlace host s frame p diff first

def planChanged (diff : LineDiff) (first : Nat) : Plan :=
  if p.widthChanged && decide (first < p.prevViewportTop) then
    if nativeViewportIsScrolled host (frame.isNativeViewportAtBottom .width) p.allowUnknownViewportMutation then
      ⟨.viewportRepaint none,true,false⟩
    else ⟨.historyRebuild,s.nativeScrollbackDirty,false⟩
  else if p.widthChanged && !p.pureAppend s first then ⟨.viewportRepaint none,s.nativeScrollbackDirty,false⟩
  else planMutation host s frame p diff first

def planRender : Plan :=
  let diff := diffLines s.previousLines p.newLines
  let naturalViewportTop := p.newLines.length - host.rows
  if !s.hasEverRendered then ⟨.initial,s.nativeScrollbackDirty,s.suppressNextSuffixScroll⟩
  else if s.clearScrollbackOnNextRender then ⟨.sessionReplace,s.nativeScrollbackDirty,s.suppressNextSuffixScroll⟩
  else if frame.hasOverlay then
    if s.nativeScrollbackDirty &&
        canRebuildNativeScrollbackLive (frame.isNativeViewportAtBottom .overlay) p.allowUnknownViewportMutation then
      ⟨.overlayRebuild,s.nativeScrollbackDirty,s.suppressNextSuffixScroll⟩
    else ⟨.viewportRepaint none,true,s.suppressNextSuffixScroll⟩
  else if s.nativeScrollbackDirty && nativeViewportIsAtBottom (frame.isNativeViewportAtBottom .history) then
    ⟨.historyRebuild,s.nativeScrollbackDirty,s.suppressNextSuffixScroll⟩
  else if diff.firstChanged.isSome && decide (p.newLines.length < s.previousLines.length) &&
      decide (naturalViewportTop < s.scrollbackHighWater) && !host.isMultiplexerSession then
    planCommittedShrink host s frame p
  else
    match diff.firstChanged with
    | none => ⟨planUnchanged host s p,s.nativeScrollbackDirty,false⟩
    | some first =>
        if s.suppressNextSuffixScroll && diff.appendedLines && decide (first < s.previousLines.length) &&
            !host.isMultiplexerSession then
          planSuffix host s frame p first
        else planChanged host s frame p diff first

end plan

section emit
variable (host : Host)

def hideCursor : List (Control CodeUnit) := [.resetMode 25]
def paintBegin : List (Control CodeUnit) := hideCursor ++ [.setMode 2026, .resetMode 7]
def paintEnd : List (Control CodeUnit) := [.setMode 7, .resetMode 2026]

def moveRows (delta : Int) : List (Control CodeUnit) :=
  if 0 < delta then [.down delta.toNat] else if delta < 0 then [.up (-delta).toNat] else []

/- Lines from the row of the cursor down. -/
def paintRows (erase : Bool) : List JsString → List (Control CodeUnit)
  | [] => []
  | first :: rest =>
      here erase (fitLineToWidth host first) ++ rest.flatMap fun line => below erase (fitLineToWidth host line)

def cursorControlSequence (s : Tui) (cursorPos : Option CursorPos) (totalLines : Nat) (fromRow : Int) :
    List (Control CodeUnit) × Int :=
  match cursorPos with
  | none => (hideCursor, fromRow)
  | some pos =>
      if totalLines = 0 then (hideCursor, fromRow)
      else
        let targetRow : Int := min pos.row (totalLines - 1)
        (moveRows (targetRow - fromRow) ++ [.column (pos.col + 1)] ++
          [if s.showHardwareCursor then .setMode 25 else .resetMode 25], targetRow)

def writeCursorPosition (s : Tui) (cursorPos : Option CursorPos) (totalLines : Nat) : List (Control CodeUnit) × Tui :=
  if cursorPos.isNone || totalLines == 0 then (hideCursor, s)
  else
    let (seq, toRow) := cursorControlSequence s cursorPos totalLines s.hardwareCursorRow
    (hideCursor ++ [.setMode 2026] ++ seq ++ [.resetMode 2026], { s with hardwareCursorRow := toRow })

def commit (s : Tui) (lines : List JsString) (viewportTop : Nat) (hardwareCursorRow : Int) : Tui :=
  { s with
    previousLines := lines
    forceViewportRepaintOnNextRender := false
    previousWidth := host.columns
    previousHeight := host.rows
    viewportTopRow := viewportTop
    hardwareCursorRow := hardwareCursorRow }

def raiseHighWater (s : Tui) (pushedNow : Nat) : Tui :=
  { s with scrollbackHighWater := max s.scrollbackHighWater pushedNow }

def emitFullPaint (s : Tui) (lines : List JsString) (cursorPos : Option CursorPos) (clearViewport clearScrollback : Bool) :
    List (Control CodeUnit) × Tui :=
  let clear : List (Control CodeUnit) :=
    if clearViewport then [.eraseScreen, .home] ++ (if clearScrollback then [.eraseSavedLines] else []) else []
  let (seq, toRow) := cursorControlSequence s cursorPos lines.length (lines.length - 1 : Nat)
  let maxLinesRendered := if clearViewport then lines.length else max s.maxLinesRendered lines.length
  let cleared : Tui :=
    if clearScrollback then { s with scrollbackHighWater := 0, suppressNextSuffixScroll := host.rows < lines.length } else s
  let counted := raiseHighWater { cleared with maxLinesRendered } (lines.length - host.rows)
  (paintBegin ++ clear ++ paintRows host false lines ++ seq ++ paintEnd,
    commit host counted lines (maxLinesRendered - host.rows) toRow)

def windowLines (lines : List JsString) : List JsString :=
  (List.range host.rows).map fun screenRow => lines.getD (lines.length - host.rows + screenRow) []

def emitViewportRepaint (s : Tui) (lines : List JsString) (cursorPos : Option CursorPos) : List (Control CodeUnit) × Tui :=
  let viewportTop := lines.length - host.rows
  let finalRow : Int := viewportTop + host.rows - 1
  let (seq, toRow) := cursorControlSequence s cursorPos lines.length finalRow
  (paintBegin ++ [.home] ++ paintRows host true (windowLines host lines) ++ seq ++ paintEnd,
    commit host { s with maxLinesRendered := lines.length } lines viewportTop toRow)

def emitAppendTail (s : Tui) (lines : List JsString) (start prevViewportTop : Nat) (prevHardwareCursorRow : Int) :
    List (Control CodeUnit) × Tui :=
  if lines.length ≤ start then ([], s)
  else
    let clampedCursor := min prevHardwareCursorRow (prevViewportTop + host.rows - 1)
    let currentScreenRow := max 0 (min ((host.rows : Int) - 1) (clampedCursor - prevViewportTop))
    let moveToBottom := host.rows - 1 - currentScreenRow
    (paintBegin ++ moveRows moveToBottom ++
        ((lines.drop start).flatMap fun line => below false (fitLineToWidth host line)) ++ paintEnd,
      raiseHighWater s (lines.length - host.rows))

/- Rows that are erased going down, one move between two of them. -/
def eraseDown : Nat → List (Control CodeUnit)
  | 0 => []
  | extra + 1 => [.carriageReturn, .eraseLine] ++ (List.replicate extra [.down 1, .carriageReturn, .eraseLine]).flatten

def emitShrink (s : Tui) (lines : List JsString) (cursorPos : Option CursorPos) (prevHardwareCursorRow : Int)
    (prevViewportTop : Nat) : List (Control CodeUnit) × Tui :=
  let extraLines := s.previousLines.length - lines.length
  if extraLines = 0 then
    ([], commit host { s with maxLinesRendered := lines.length } lines (lines.length - host.rows) prevHardwareCursorRow)
  else if host.rows < extraLines then emitViewportRepaint host s lines cursorPos
  else
    let viewportTop := s.maxLinesRendered - host.rows
    let targetRow := lines.length - 1
    let clampedCursor := min prevHardwareCursorRow (prevViewportTop + host.rows - 1)
    let currentScreenRow := clampedCursor - prevViewportTop
    let targetScreenRow : Int := targetRow - viewportTop
    let clearStartOffset := if lines.length = 0 then 0 else 1
    let moveUp := extraLines - 1 + clearStartOffset
    let (seq, toRow) := cursorControlSequence s cursorPos lines.length targetRow
    (paintBegin ++ moveRows (targetScreenRow - currentScreenRow) ++ [.carriageReturn] ++ moveRows clearStartOffset ++
        eraseDown extraLines ++ moveRows (-moveUp) ++ seq ++ paintEnd,
      commit host { s with maxLinesRendered := lines.length } lines (lines.length - host.rows) toRow)

/-- What the rewrite of the changed rows starts from: how far the screen was scrolled for it. -/
structure DiffStart where
  controls : List (Control CodeUnit)
  viewportTop : Nat
  activeViewportTop : Nat
  hardwareCursorRow : Int

def scrollToTarget (s : Tui) (moveTargetRow prevViewportTop : Nat) (prevHardwareCursorRow : Int) : DiffStart :=
  let viewportTop := s.maxLinesRendered - host.rows
  let hardwareCursorRow := min prevHardwareCursorRow (prevViewportTop + host.rows - 1)
  let prevViewportBottom : Int := prevViewportTop + host.rows - 1
  if prevViewportBottom < moveTargetRow then
    let currentScreenRow := max 0 (min ((host.rows : Int) - 1) (hardwareCursorRow - prevViewportTop))
    let scroll := (moveTargetRow - prevViewportBottom).toNat
    ⟨moveRows (host.rows - 1 - currentScreenRow) ++ (List.replicate scroll [.carriageReturn, .lineFeed]).flatten,
      viewportTop + scroll,prevViewportTop + scroll,moveTargetRow⟩
  else ⟨[],viewportTop,prevViewportTop,hardwareCursorRow⟩

/- The rows of a taller previous frame, cleared below the last one written. -/
def clearTrailing (s : Tui) (lines : List JsString) (renderEnd : Int) : List (Control CodeUnit) × Int :=
  if lines.length < s.previousLines.length then
    let extraLines := s.previousLines.length - lines.length
    let moveDown := lines.length - 1 - renderEnd
    let finalCursorRow := if renderEnd < lines.length - 1 then (lines.length : Int) - 1 else renderEnd
    (moveRows (max 0 moveDown) ++ (List.replicate extraLines [.carriageReturn, .lineFeed, .eraseLine]).flatten ++
      [.up extraLines], finalCursorRow)
  else ([], renderEnd)

def emitDiff (s : Tui) (lines : List JsString) (cursorPos : Option CursorPos) (firstChanged lastChanged : Nat)
    (appendedLines : Bool) (prevViewportTop : Nat) (prevHardwareCursorRow : Int) : List (Control CodeUnit) × Tui :=
  let appendStart := appendedLines && firstChanged == s.previousLines.length && decide (0 < firstChanged)
  let moveTargetRow := if appendStart then firstChanged - 1 else firstChanged
  let start := scrollToTarget host s moveTargetRow prevViewportTop prevHardwareCursorRow
  let currentScreenRow := start.hardwareCursorRow - start.activeViewportTop
  let targetScreenRow : Int := moveTargetRow - start.viewportTop
  let enter : List (Control CodeUnit) := if appendStart then [.carriageReturn, .lineFeed] else [.carriageReturn]
  let renderEnd := min (lastChanged : Int) (lines.length - 1)
  let (trailing, finalCursorRow) := clearTrailing s lines renderEnd
  let (seq, toRow) := cursorControlSequence s cursorPos lines.length finalCursorRow
  let counted :=
    if s.previousLines.length < lines.length then raiseHighWater s (lines.length - host.rows) else s
  (paintBegin ++ start.controls ++ moveRows (targetScreenRow - currentScreenRow) ++ enter ++
      paintRows host true ((lines.take (renderEnd + 1).toNat).drop firstChanged) ++ trailing ++ seq ++ paintEnd,
    commit host { counted with maxLinesRendered := lines.length } lines (lines.length - host.rows) toRow)

def padDeferredShrinkLines (lines : List JsString) (paddedLength : Nat) : List JsString :=
  lines ++ List.replicate (paddedLength - lines.length) []

end emit

section render
variable (host : Host)

def planning (s : Tui) (frame : Frame) : Planning where
  newLines := (compose host (frame.composited.getD frame.rendered)).2
  widthChanged := decide (0 < s.previousWidth) && s.previousWidth != host.columns
  heightChanged := decide (0 < s.previousHeight) && s.previousHeight != host.rows
  prevViewportTop := s.viewportTopRow
  allowUnknownViewportMutation :=
    s.allowUnknownViewportMutationOnNextRender || (s.eagerNativeScrollbackRebuild && !host.eagerEraseScrollbackRisk)

def classify (s : Tui) (frame : Frame) : Plan := planRender host s frame (planning host s frame)

/- The state the emitters start from. -/
def classified (s : Tui) (plan : Plan) : Tui :=
  { s with
    allowUnknownViewportMutationOnNextRender := false
    nativeScrollbackDirty := plan.nativeScrollbackDirty
    suppressNextSuffixScroll := plan.suppressNextSuffixScroll }

def execute (s : Tui) (frame : Frame) (intent : RenderIntent) (prevViewportTop : Nat) (prevHardwareCursorRow : Int) :
    List (Control CodeUnit) × Tui :=
  let (cursorPos, lines) := compose host (frame.composited.getD frame.rendered)
  match intent with
  | .noop =>
      let (controls, moved) := writeCursorPosition s cursorPos lines.length
      (controls, { moved with
        viewportTopRow := s.maxLinesRendered - host.rows
        previousWidth := host.columns
        previousHeight := host.rows })
  | .initial =>
      let (controls, painted) := emitFullPaint host s lines cursorPos true false
      (controls, { painted with hasEverRendered := true })
  | .sessionReplace =>
      emitFullPaint host { s with clearScrollbackOnNextRender := false, nativeScrollbackDirty := false } lines cursorPos true
        (!host.isMultiplexerSession)
  | .historyRebuild =>
      emitFullPaint host { s with nativeScrollbackDirty := false } lines cursorPos true (!host.isMultiplexerSession)
  | .overlayRebuild =>
      let (base, painted) := emitFullPaint host { s with nativeScrollbackDirty := false }
        (compose host frame.rendered).2 none true (!host.isMultiplexerSession)
      let (overlaid, repainted) := emitViewportRepaint host painted lines cursorPos
      (base ++ overlaid, repainted)
  | .viewportRepaint appendFrom =>
      let (tail, pushed) := match appendFrom with
        | none => ([], s)
        | some start => emitAppendTail host s lines start prevViewportTop prevHardwareCursorRow
      let (window, repainted) := emitViewportRepaint host pushed lines cursorPos
      (tail ++ window, repainted)
  | .deferredMutation => ([], s)
  | .deferredShrink paddedLength => emitViewportRepaint host s (padDeferredShrinkLines lines paddedLength) cursorPos
  | .shrink => emitShrink host s lines cursorPos prevHardwareCursorRow prevViewportTop
  | .diff firstChanged lastChanged appendedLines =>
      emitDiff host s lines cursorPos firstChanged lastChanged appendedLines prevViewportTop prevHardwareCursorRow

def doRender (s : Tui) (frame : Frame) : List (Control CodeUnit) × Tui :=
  let plan := classify host s frame
  execute host (classified s plan) frame plan.intent s.viewportTopRow s.hardwareCursorRow

def prepareForcedRender (s : Tui) (atBottom : Probe → Option Bool) (clearScrollback allowUnknownViewportMutation : Bool) :
    Tui :=
  let geometryChanged := (decide (0 < s.previousWidth) && s.previousWidth != host.columns) ||
    (decide (0 < s.previousHeight) && s.previousHeight != host.rows)
  let replayGeometry := geometryChanged &&
    canReplayNativeScrollbackAtCheckpoint host (atBottom .geometry) allowUnknownViewportMutation
  { s with
    clearScrollbackOnNextRender := s.clearScrollbackOnNextRender || clearScrollback || replayGeometry
    forceViewportRepaintOnNextRender := true }

/- The marks a request leaves; the render it schedules is an event of its own. -/
def requestRender (s : Tui) (atBottom : Probe → Option Bool) (force clearScrollback allowUnknownViewportMutation : Bool) :
    Tui :=
  let allowed : Tui :=
    { s with allowUnknownViewportMutationOnNextRender :=
        s.allowUnknownViewportMutationOnNextRender || allowUnknownViewportMutation }
  if force then prepareForcedRender host allowed atBottom clearScrollback allowUnknownViewportMutation else allowed

def refreshNativeScrollbackIfDirty (s : Tui) (frame : Frame) (allowUnknownViewport : Bool) :
    List (Control CodeUnit) × Tui :=
  if s.nativeScrollbackDirty &&
      canReplayNativeScrollbackAtCheckpoint host (frame.isNativeViewportAtBottom .checkpoint) allowUnknownViewport then
    doRender host (prepareForcedRender host s frame.isNativeViewportAtBottom true allowUnknownViewport) frame
  else ([], s)

end render

/-- What happens to a renderer between its start and its stop. -/
inductive Event where
  | requestRender (atBottom : Probe → Option Bool) (force clearScrollback allowUnknownViewportMutation : Bool)
  | setClearOnShrink (enabled : Bool)
  | setEagerNativeScrollbackRebuild (enabled : Bool)
  | doRender (frame : Frame)
  | refreshNativeScrollbackIfDirty (frame : Frame) (allowUnknownViewport : Bool)

/-- A renderer and the terminal it writes to. -/
structure Session (host : Host) where
  tui : Tui
  terminal : Terminal CodeUnit host.rows

section session
variable {host : Host}

def Session.write (session : Session host) (out : List (Control CodeUnit) × Tui) : Session host :=
  ⟨out.2,run (visibleWidth host) session.terminal out.1⟩

def step (session : Session host) : Event → Session host
  | .requestRender atBottom force clearScrollback allowUnknownViewportMutation =>
      { session with tui := requestRender host session.tui atBottom force clearScrollback allowUnknownViewportMutation }
  | .setClearOnShrink enabled => { session with tui := { session.tui with clearOnShrink := enabled } }
  | .setEagerNativeScrollbackRebuild enabled =>
      { session with tui := { session.tui with eagerNativeScrollbackRebuild := enabled } }
  | .doRender frame => session.write (doRender host session.tui frame)
  | .refreshNativeScrollbackIfDirty frame allowUnknownViewport =>
      session.write (refreshNativeScrollbackIfDirty host session.tui frame allowUnknownViewport)

def runEvents (session : Session host) (events : List Event) : Session host := events.foldl step session

end session

end TuiRenderer
