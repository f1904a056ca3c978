import OpenAgents.AnsiText.AnsiScan

/- Wrapping a text to a width, with the SGR state carried from line to line. Every loop takes fuel: nothing
   in the text of a loop says that it ends. -/
namespace AnsiText
open JsText WhileLoop RunScanner

def readEscape (state : AnsiState) (seq : JsString) : AnsiState :=
  if isSgr seq then applySgr state (seq.drop 2).dropLast else state

def updateScanner : UnitScanner CodeUnit AnsiState where
  sequence := readEscape
  unit state _ := (state, true)

def updateStateFromText (fuel : Nat) (data : JsString) (state : AnsiState) : Option AnsiState :=
  loop (unitStep escapes updateScanner) fuel (state, data)

def whitespaceScanner : UnitScanner CodeUnit Bool where
  sequence blank _ := blank
  unit blank c := if c = space then (blank, true) else (false, false)

def tokenIsWhitespace (fuel : Nat) (token : JsString) : Option Bool :=
  loop (unitStep escapes whitespaceScanner) fuel (true, token)

def trimEndSpaces (line : JsString) : JsString := line.rdropWhile (· == space)

structure Splitting where
  tokens : List JsString
  current : JsString
  pendingAnsi : JsString
  inWhitespace : Bool

def splitUnit (s : Splitting) (ch : CodeUnit) : Splitting :=
  let charIsSpace := ch == space
  if charIsSpace != s.inWhitespace && !s.current.isEmpty then ⟨s.tokens ++ [s.current],s.pendingAnsi ++ [ch],[],charIsSpace⟩
  else ⟨s.tokens,s.current ++ s.pendingAnsi ++ [ch],[],charIsSpace⟩

def splitScanner : UnitScanner CodeUnit Splitting where
  sequence s q := { s with pendingAnsi := s.pendingAnsi ++ q }
  unit s ch := (splitUnit s ch, true)

def splitEnd (s : Splitting) : List JsString :=
  if (s.current ++ s.pendingAnsi).isEmpty then s.tokens else s.tokens ++ [s.current ++ s.pendingAnsi]

def splitIntoTokensWithAnsi (fuel : Nat) (line : JsString) : Option (List JsString) :=
  (loop (unitStep escapes splitScanner) fuel (⟨[],[],[],false⟩, line)).map splitEnd

structure Breaking where
  lines : List JsString
  currentLine : JsString
  currentWidth : Nat
  state : AnsiState

section wrap
variable (host : Segmentation) (tabWidth width : Nat)

def breakCell (s : Breaking) (cell : Cell) : Breaking :=
  if width < s.currentWidth + cell.width then
    { s with lines := s.lines ++ [s.currentLine ++ writeLineEndReset s.state]
             currentLine := writeRestore s.state ++ cell.units
             currentWidth := cell.width }
  else { s with currentLine := s.currentLine ++ cell.units, currentWidth := s.currentWidth + cell.width }

/- The run up to the next escape character starts where the scan stands: at an escape character that starts
   no sequence it is empty. -/
def breakStep : Breaking × JsString → (Breaking × JsString) ⊕ Breaking
  | (s, []) => .inr s
  | (s, c :: rest) =>
      match ansiSeqLen (c :: rest) with
      | some n =>
          let seq := (c :: rest).take n
          .inl ({ s with currentLine := s.currentLine ++ seq, state := readEscape s.state seq }, (c :: rest).drop n)
      | none =>
          .inl ((cells host tabWidth (beforeMark escapes (c :: rest))).foldl (breakCell width) s, fromMark escapes (c :: rest))

def breakEnd (s : Breaking) : List JsString := if s.currentLine.isEmpty then s.lines else s.lines ++ [s.currentLine]

def breakLongWord (fuel : Nat) (word : JsString) (state : AnsiState) : Option (List JsString × AnsiState) :=
  (loop (breakStep host tabWidth width) fuel (⟨[],writeRestore state,0,state⟩, word)).map fun s => (breakEnd s, s.state)

structure Wrapping where
  wrapped : List JsString
  currentLine : JsString
  currentWidth : Nat
  state : AnsiState

def flushLine (s : Wrapping) : Wrapping :=
  if s.currentLine.isEmpty then s
  else { s with wrapped := s.wrapped ++ [s.currentLine ++ writeLineEndReset s.state], currentLine := [], currentWidth := 0 }

def placeBroken (fuel : Nat) (s : Wrapping) (token : JsString) : Option Wrapping := do
  let (broken, state) ← breakLongWord host tabWidth width fuel token (flushLine s).state
  match broken.getLast? with
  | none => some { flushLine s with state := state }
  | some last =>
      let currentWidth ← visibleWidth host tabWidth fuel last
      some ⟨(flushLine s).wrapped ++ broken.dropLast,last,currentWidth,state⟩

def placeShort (s : Wrapping) (token : JsString) (tokenWidth : Nat) (isWhitespace : Bool) : Wrapping :=
  if width < s.currentWidth + tokenWidth ∧ 0 < s.currentWidth then
    let wrapped := s.wrapped ++ [trimEndSpaces s.currentLine ++ writeLineEndReset s.state]
    if isWhitespace then { s with wrapped := wrapped, currentLine := writeRestore s.state, currentWidth := 0 }
    else { s with wrapped := wrapped, currentLine := writeRestore s.state ++ token, currentWidth := tokenWidth }
  else { s with currentLine := s.currentLine ++ token, currentWidth := s.currentWidth + tokenWidth }

def placeToken (fuel : Nat) (s : Wrapping) (token : JsString) : Option Wrapping := do
  let tokenWidth ← visibleWidth host tabWidth fuel token
  let isWhitespace ← tokenIsWhitespace fuel token
  if width < tokenWidth ∧ isWhitespace = false then placeBroken host tabWidth width fuel s token
  else
    let state ← updateStateFromText fuel token s.state
    some { placeShort width s token tokenWidth isWhitespace with state := state }

def wrapEnd (s : Wrapping) : List JsString :=
  let wrapped := (if s.currentLine.isEmpty then s.wrapped else s.wrapped ++ [s.currentLine]).map trimEndSpaces
  if wrapped.isEmpty then [[]] else wrapped

def wrapSingleLine (fuel : Nat) (line : JsString) : Option (List JsString) := do
  if line.isEmpty then some [[]]
  else
    let lineWidth ← visibleWidth host tabWidth fuel line
    if lineWidth ≤ width then some [line]
    else
      let tokens ← splitIntoTokensWithAnsi fuel line
      let s ← tokens.foldlM (placeToken host tabWidth width fuel) ⟨[],[],0,fresh⟩
      some (wrapEnd s)

def wrapLine (fuel : Nat) (s : List JsString × AnsiState) (line : JsString) : Option (List JsString × AnsiState) := do
  let prefixCodes := if s.1.isEmpty then [] else writeRestore s.2
  let wrapped ← wrapSingleLine host tabWidth width fuel (prefixCodes ++ line)
  let state ← updateStateFromText fuel line s.2
  some (s.1 ++ wrapped, state)

def wrapTextWithAnsiImpl (fuel : Nat) (text : JsString) : Option (List JsString) :=
  if text.isEmpty then some [[]]
  else do
    let (result, _) ← (splitLines text).foldlM (wrapLine host tabWidth width fuel) ([], fresh)
    some (if result.isEmpty then [[]] else result)

end wrap

/- The result strings lose their trailing NUL units. -/
def buildUtf16String (data : JsString) : JsString := data.rdropWhile (· == 0)

def wrapTextWithAnsi (host : Segmentation) (fuel : Nat) (text : JsString) (width tabWidth : Nat) : Option (List JsString) :=
  (wrapTextWithAnsiImpl host (clampTabWidth tabWidth) width fuel text).map fun lines => lines.map buildUtf16String

end AnsiText
