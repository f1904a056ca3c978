import OpenAgents.Lib.JsText

/- The SGR state of a terminal as the text functions of the native library keep it: what a parameter list
   does to it, and the sequence that brings a fresh terminal to it. -/
namespace AnsiText
open JsText

def esc : CodeUnit := 0x1b
def semicolon : CodeUnit := 59
def u32Max : Nat := 0xFFFFFFFF

/- No colour, the 16 named ones, `0x100 | index` and `0x1000000 | rgb`. -/
def IsColor (color : Nat) : Prop :=
  color ≤ 16 ∨ 0x100 ≤ color ∧ color < 0x200 ∨ 0x1000000 ≤ color ∧ color < 0x2000000

instance (color : Nat) : Decidable (IsColor color) := inferInstanceAs (Decidable (_ ∨ _))

structure ColorVal where
  value : Nat
  isColor : IsColor value
  deriving DecidableEq

def colorNone : ColorVal := ⟨0,.inl (Nat.zero_le 16)⟩

structure AnsiState where
  bold : Bool
  dim : Bool
  italic : Bool
  underline : Bool
  blink : Bool
  inverse : Bool
  hidden : Bool
  strike : Bool
  fg : ColorVal
  bg : ColorVal
  deriving DecidableEq

def fresh : AnsiState := ⟨false,false,false,false,false,false,false,false,colorNone,colorNone⟩

def isEmpty (state : AnsiState) : Bool := state == fresh

def readNum : Nat → JsString → Nat × JsString
  | val, [] => (val, [])
  | val, b :: rest =>
      if b = semicolon then (val, rest)
      else if isDigit b then readNum (min (min (val * 10) u32Max + (b.toNat - 48)) u32Max) rest
      else readNum val rest

/- The number and what is left of the parameters. -/
def parseSgrNum (params : JsString) : Nat × JsString := readNum 0 (params.dropWhile (· == semicolon))

def indexedColor (idx : Nat) : ColorVal := ⟨0x100 + idx % 0x100,by unfold IsColor; omega⟩

def rgbColor (r g b : Nat) : ColorVal :=
  ⟨0x1000000 + r % 0x100 * 0x10000 + g % 0x100 * 0x100 + b % 0x100,by unfold IsColor; omega⟩

def setColor (code : Nat) (state : AnsiState) (color : ColorVal) : AnsiState :=
  if code = 38 then { state with fg := color } else { state with bg := color }

/- Codes 38 and 48 read their colour from the parameters that follow. -/
def extendedColor (code : Nat) (state : AnsiState) (params : JsString) : AnsiState × JsString :=
  let (mode, rest) := parseSgrNum params
  if mode = 5 then
    let (idx, rest) := parseSgrNum rest
    (setColor code state (indexedColor idx), rest)
  else if mode = 2 then
    let (r, rest) := parseSgrNum rest
    let (g, rest) := parseSgrNum rest
    let (b, rest) := parseSgrNum rest
    (setColor code state (rgbColor r g b), rest)
  else (state, rest)

def plainCode (code : Nat) (state : AnsiState) : AnsiState :=
  match code with
  | 0 => fresh
  | 1 => { state with bold := true }
  | 2 => { state with dim := true }
  | 3 => { state with italic := true }
  | 4 => { state with underline := true }
  | 5 => { state with blink := true }
  | 7 => { state with inverse := true }
  | 8 => { state with hidden := true }
  | 9 => { state with strike := true }
  | 21 => { state with bold := false }
  | 22 => { state with bold := false, dim := false }
  | 23 => { state with italic := false }
  | 24 => { state with underline := false }
  | 25 => { state with blink := false }
  | 27 => { state with inverse := false }
  | 28 => { state with hidden := false }
  | 29 => { state with strike := false }
  | _ =>
      if named : 30 ≤ code ∧ code ≤ 37 then { state with fg := ⟨code - 29,.inl (by omega)⟩ }
      else if code = 39 then { state with fg := colorNone }
      else if named : 40 ≤ code ∧ code ≤ 47 then { state with bg := ⟨code - 39,.inl (by omega)⟩ }
      else if code = 49 then { state with bg := colorNone }
      else if named : 90 ≤ code ∧ code ≤ 97 then { state with fg := ⟨code - 81,.inl (by omega)⟩ }
      else if named : 100 ≤ code ∧ code ≤ 107 then { state with bg := ⟨code - 91,.inl (by omega)⟩ }
      else state

def applyCode (code : Nat) (state : AnsiState) (params : JsString) : AnsiState × JsString :=
  if code = 38 ∨ code = 48 then extendedColor code state params else (plainCode code state, params)

theorem readNum_length (val : Nat) (params : JsString) : (readNum val params).2.length ≤ params.length - 1 := by
  induction params generalizing val with
  | nil => simp [readNum]
  | cons b rest ih =>
    rw [readNum, List.length_cons, Nat.add_sub_cancel]
    split
    · exact Nat.le_refl _
    · split
      · exact (ih _).trans (Nat.sub_le _ _)
      · exact (ih _).trans (Nat.sub_le _ _)

theorem parseSgrNum_length (params : JsString) : (parseSgrNum params).2.length ≤ params.length - 1 := by
  have later := (List.dropWhile_sublist (· == semicolon) : (params.dropWhile (· == semicolon)).Sublist params).length_le
  exact (readNum_length 0 _).trans (Nat.sub_le_sub_right later 1)

theorem applyCode_length (code : Nat) (state : AnsiState) (params : JsString) :
    (applyCode code state params).2.length ≤ params.length := by
  rw [applyCode]
  split
  · rw [extendedColor]
    have first := parseSgrNum_length params
    have second := parseSgrNum_length (parseSgrNum params).2
    have third := parseSgrNum_length (parseSgrNum (parseSgrNum params).2).2
    have fourth := parseSgrNum_length (parseSgrNum (parseSgrNum (parseSgrNum params).2).2).2
    dsimp only
    split
    · dsimp only; omega
    · split
      · dsimp only; omega
      · dsimp only; omega
  · exact Nat.le_refl _

def applyCodes : AnsiState → JsString → AnsiState
  | state, [] => state
  | state, c :: rest =>
      let read := parseSgrNum (c :: rest)
      applyCodes (applyCode read.1 state read.2).1 (applyCode read.1 state read.2).2
termination_by _ params => params.length
decreasing_by
  have one := parseSgrNum_length (c :: rest)
  have left := applyCode_length (parseSgrNum (c :: rest)).1 state (parseSgrNum (c :: rest)).2
  rw [List.length_cons] at *
  omega

def applySgr (state : AnsiState) (params : JsString) : AnsiState :=
  if params.isEmpty then fresh else applyCodes state params

def colorCodes (color : ColorVal) (base : Nat) : List JsString :=
  if color.value = 0 then []
  else if color.value < 0x100 then
    let code := if color.value ≤ 8 then color.value + 29 else color.value + 81
    [decimal (if base = 48 then code + 10 else code)]
  else if color.value < 0x1000000 then [decimal base, decimal 5, decimal (color.value % 0x100)]
  else [decimal base, decimal 2, decimal (color.value / 0x10000 % 0x100), decimal (color.value / 0x100 % 0x100),
    decimal (color.value % 0x100)]

def attrCode (on : Bool) (code : Nat) : List JsString := if on then [decimal code] else []

def restoreCodes (state : AnsiState) : List JsString :=
  attrCode state.bold 1 ++ attrCode state.dim 2 ++ attrCode state.italic 3 ++ attrCode state.underline 4 ++
    attrCode state.blink 5 ++ attrCode state.inverse 7 ++ attrCode state.hidden 8 ++ attrCode state.strike 9 ++
    colorCodes state.fg 38 ++ colorCodes state.bg 48

def sgrSequence (codes : List JsString) : JsString := esc :: 91 :: [semicolon].intercalate codes ++ [109]

def writeRestore (state : AnsiState) : JsString := if isEmpty state then [] else sgrSequence (restoreCodes state)

def writeLineEndReset (state : AnsiState) : JsString :=
  if !state.underline && !state.strike then []
  else sgrSequence (attrCode state.underline 24 ++ attrCode state.strike 29)

end AnsiText
