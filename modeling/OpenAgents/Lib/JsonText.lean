import OpenAgents.Lib.JsText

/- JSON as text. A text is cut into pieces, of which a string literal may hold some that JSON does not allow
   there; the grammar says which texts are JSON. -/
namespace JsonText
open JsText

def quoteMark : CodeUnit := 34
def backslash : CodeUnit := 92

def isHex (c : CodeUnit) : Bool := isDigit c || (65 ≤ c && c ≤ 70) || (97 ≤ c && c ≤ 102)

/- The letters behind a backslash, `u` apart. -/
def isEscapeLetter (c : CodeUnit) : Bool := (js "\"\\/bfnrt").contains c

inductive Piece where
  | outside (c : CodeUnit)
  | opens
  | closes
  | plain (c : CodeUnit)
  | control (c : CodeUnit)
  | escape (letter : CodeUnit)
  | unicode (a b c d : CodeUnit)
  | stray
  deriving DecidableEq, Repr

def Piece.text : Piece → JsString
  | .outside c => [c]
  | .opens => [quoteMark]
  | .closes => [quoteMark]
  | .plain c => [c]
  | .control c => [c]
  | .escape letter => [backslash, letter]
  | .unicode a b c d => [backslash, 117, a, b, c, d]
  | .stray => [backslash]

/- Whether the text behind the piece is inside a literal. -/
def Piece.inside : Piece → Bool
  | .outside _ => false
  | .closes => false
  | _ => true

/- What a backslash begins; alone it is `stray`. -/
def escapeAt : JsString → Piece
  | 117 :: a :: b :: c :: d :: _ => if isHex a && isHex b && isHex c && isHex d then .unicode a b c d else .stray
  | letter :: _ => if isEscapeLetter letter then .escape letter else .stray
  | [] => .stray

def pieceAt (inString : Bool) (c : CodeUnit) (rest : JsString) : Piece :=
  if inString then
    if c = quoteMark then .closes
    else if c = backslash then escapeAt rest
    else if c < 32 then .control c
    else .plain c
  else if c = quoteMark then .opens
  else .outside c

/- One piece takes at least one character. -/
def piecesFuel : Nat → Bool → JsString → List Piece
  | 0, _, _ => []
  | _ + 1, _, [] => []
  | fuel + 1, inString, c :: rest =>
      let piece := pieceAt inString c rest
      piece :: piecesFuel fuel piece.inside ((c :: rest).drop piece.text.length)

def pieces (inString : Bool) (text : JsString) : List Piece := piecesFuel text.length inString text

theorem escapeAt_prefix (rest : JsString) : ∃ later, backslash :: rest = (escapeAt rest).text ++ later := by
  unfold escapeAt
  split
  · split
    · exact ⟨_,rfl⟩
    · exact ⟨_,rfl⟩
  · split
    · exact ⟨_,rfl⟩
    · exact ⟨_,rfl⟩
  · exact ⟨_,rfl⟩

theorem pieceAt_prefix (inString : Bool) (c : CodeUnit) (rest : JsString) :
    ∃ later, c :: rest = (pieceAt inString c rest).text ++ later := by
  unfold pieceAt
  split
  · split
    next quote => exact ⟨rest,by rw [quote]; rfl⟩
    · split
      next mark =>
        rw [mark]
        exact escapeAt_prefix rest
      · split
        · exact ⟨rest,rfl⟩
        · exact ⟨rest,rfl⟩
  · split
    next quote => exact ⟨rest,by rw [quote]; rfl⟩
    · exact ⟨rest,rfl⟩

theorem text_pos (piece : Piece) : 0 < piece.text.length := by
  cases piece <;> simp [Piece.text]

theorem piecesFuel_enough {fuel other : Nat} {inString : Bool} {text : JsString} (enough : text.length ≤ fuel)
    (enough' : text.length ≤ other) : piecesFuel fuel inString text = piecesFuel other inString text := by
  induction fuel generalizing other inString text with
  | zero =>
    obtain rfl := List.length_eq_zero_iff.mp (Nat.le_zero.mp enough)
    cases other <;> rfl
  | succ fuel ih =>
    cases text with
    | nil => cases other <;> rfl
    | cons c rest =>
      obtain ⟨other,rfl⟩ : ∃ k, other = k + 1 := ⟨other - 1,by rw [List.length_cons] at enough'; omega⟩
      have takes := text_pos (pieceAt inString c rest)
      have left : ((c :: rest).drop (pieceAt inString c rest).text.length).length ≤ rest.length := by
        rw [List.length_drop, List.length_cons]
        omega
      rw [List.length_cons] at enough enough'
      simp only [piecesFuel]
      rw [ih (by omega) (by omega : _ ≤ other)]

theorem pieces_cons (inString : Bool) (c : CodeUnit) (rest : JsString) :
    pieces inString (c :: rest) = pieceAt inString c rest ::
      pieces (pieceAt inString c rest).inside ((c :: rest).drop (pieceAt inString c rest).text.length) := by
  have takes := text_pos (pieceAt inString c rest)
  rw [pieces, List.length_cons, piecesFuel]
  rw [piecesFuel_enough (by rw [List.length_drop, List.length_cons]; omega) (Nat.le_refl _)]
  rfl

def render (ps : List Piece) : JsString := ps.flatMap Piece.text

/- The state behind the pieces. -/
def after (inString : Bool) (ps : List Piece) : Bool := ps.foldl (fun _ piece => piece.inside) inString

/-- A piece that JSON allows, in a state it is read in, whatever text follows. -/
def Piece.Fits (inString : Bool) : Piece → Prop
  | .outside c => inString = false ∧ c ≠ quoteMark
  | .opens => inString = false
  | .closes => inString = true
  | .plain c => inString = true ∧ c ≠ quoteMark ∧ c ≠ backslash ∧ ¬ c < 32
  | .escape letter => inString = true ∧ isEscapeLetter letter = true
  | .unicode a b c d => inString = true ∧ isHex a = true ∧ isHex b = true ∧ isHex c = true ∧ isHex d = true
  | .control _ => False
  | .stray => False

instance (inString : Bool) : (piece : Piece) → Decidable (piece.Fits inString)
  | .outside _ => inferInstanceAs (Decidable (_ ∧ _))
  | .opens => inferInstanceAs (Decidable (_ = _))
  | .closes => inferInstanceAs (Decidable (_ = _))
  | .plain _ => inferInstanceAs (Decidable (_ ∧ _ ∧ _ ∧ _))
  | .escape _ => inferInstanceAs (Decidable (_ ∧ _))
  | .unicode _ _ _ _ => inferInstanceAs (Decidable (_ ∧ _ ∧ _ ∧ _ ∧ _))
  | .control _ => inferInstanceAs (Decidable False)
  | .stray => inferInstanceAs (Decidable False)

def Fit : Bool → List Piece → Prop
  | _, [] => True
  | inString, piece :: rest => piece.Fits inString ∧ Fit piece.inside rest

theorem letter_other {letter : CodeUnit} (escapes : isEscapeLetter letter = true) : letter ≠ 117 := by
  rintro rfl
  exact absurd escapes (by decide)

theorem pieces_fits {inString : Bool} {piece : Piece} (fits : piece.Fits inString) (rest : JsString) :
    pieces inString (piece.text ++ rest) = piece :: pieces piece.inside rest := by
  have read : ∀ c tail, piece.text ++ rest = c :: tail → pieceAt inString c tail = piece →
      pieces inString (piece.text ++ rest) = piece :: pieces piece.inside rest := by
    intro c tail is at'
    rw [is, pieces_cons, at', ← is, List.drop_left]
  cases piece with
  | outside c =>
    obtain ⟨rfl,other⟩ := fits
    exact read c rest rfl (by simp [pieceAt, other])
  | opens =>
    obtain rfl := fits
    exact read quoteMark rest rfl rfl
  | closes =>
    obtain rfl := fits
    exact read quoteMark rest rfl rfl
  | plain c =>
    obtain ⟨rfl,quote,mark,high⟩ := fits
    exact read c rest rfl (by simp [pieceAt, quote, mark, high])
  | control c => exact fits.elim
  | escape letter =>
    obtain ⟨rfl,escapes⟩ := fits
    have other := letter_other escapes
    refine read backslash (letter :: rest) rfl ?_
    have at' : escapeAt (letter :: rest) = .escape letter := by
      unfold escapeAt
      split
      next same =>
        obtain ⟨is,-⟩ := List.cons_eq_cons.mp same
        exact absurd is other
      next same =>
        obtain ⟨rfl,-⟩ := List.cons_eq_cons.mp same
        exact if_pos escapes
      next same => cases same
    exact at'
  | unicode a b c d =>
    obtain ⟨rfl,hexA,hexB,hexC,hexD⟩ := fits
    refine read backslash (117 :: a :: b :: c :: d :: rest) rfl ?_
    have at' : escapeAt (117 :: a :: b :: c :: d :: rest) = .unicode a b c d := by simp [escapeAt, hexA, hexB, hexC, hexD]
    exact at'
  | stray => exact fits.elim

/-- Pieces that fit are read back from their text. -/
theorem pieces_render {inString : Bool} {ps : List Piece} (fit : Fit inString ps) : pieces inString (render ps) = ps := by
  induction ps generalizing inString with
  | nil => rfl
  | cons piece rest ih => rw [render, List.flatMap_cons, pieces_fits fit.1, ← render, ih fit.2]

/-- What a text is cut into: pieces that fit, and inside a literal control characters and lone backslashes. -/
theorem pieceAt_reads (inString : Bool) (c : CodeUnit) (rest : JsString) : (pieceAt inString c rest).Fits inString ∨
    inString = true ∧ (pieceAt inString c rest = .stray ∨ c < 32 ∧ pieceAt inString c rest = .control c) := by
  unfold pieceAt
  cases inString with
  | false =>
    by_cases quote : c = quoteMark
    · simp [quote, Piece.Fits]
    · simp [quote, Piece.Fits]
  | true =>
    rw [if_pos rfl]
    split
    · exact .inl rfl
    next quote =>
      split
      · unfold escapeAt
        split
        next a b c d _ =>
          split
          next hex => exact .inl (by simpa [Piece.Fits, and_assoc] using hex)
          · exact .inr ⟨rfl,.inl rfl⟩
        next letter _ _ =>
          split
          next escapes => exact .inl ⟨rfl,escapes⟩
          · exact .inr ⟨rfl,.inl rfl⟩
        · exact .inr ⟨rfl,.inl rfl⟩
      next mark =>
        split
        next low => exact .inr ⟨rfl,.inr ⟨low,rfl⟩⟩
        next high => exact .inl ⟨rfl,quote,mark,high⟩

/-- What is shown of a text piece by piece is shown of the whole text. -/
theorem pieces_induction {P : Bool → JsString → Prop} (nil : ∀ inString, P inString [])
    (step : ∀ inString c rest later, c :: rest = (pieceAt inString c rest).text ++ later → P (pieceAt inString c rest).inside later →
      pieces inString (c :: rest) = pieceAt inString c rest :: pieces (pieceAt inString c rest).inside later → P inString (c :: rest))
    (inString : Bool) (text : JsString) : P inString text := by
  generalize size : text.length = n
  induction n using Nat.strong_induction_on generalizing inString text with
  | h n ih =>
    cases text with
    | nil => exact nil inString
    | cons c rest =>
      obtain ⟨later,is⟩ := pieceAt_prefix inString c rest
      have takes := text_pos (pieceAt inString c rest)
      have lengths := congrArg List.length is
      rw [List.length_append, size] at lengths
      refine step inString c rest later is (ih later.length (by omega) _ later rfl) ?_
      have dropped : (c :: rest).drop (pieceAt inString c rest).text.length = later := by
        rw [is]
        exact List.drop_left
      rw [pieces_cons, dropped]

theorem render_pieces (inString : Bool) (text : JsString) : render (pieces inString text) = text := by
  induction inString, text using pieces_induction with
  | nil => rfl
  | step inString c rest later is ih cut =>
    rw [cut, render, List.flatMap_cons, ← render, ih, ← is]

/-- What a piece stands for: a character outside the literals, an end of a literal, or a character in it. A lone
    backslash counts as itself. -/
inductive Meaning where
  | outside (c : CodeUnit)
  | opens
  | closes
  | inside (c : CodeUnit)
  deriving DecidableEq, Repr

def hexValue (c : CodeUnit) : Nat :=
  if isDigit c then c.toNat - 48 else if c ≤ 70 then c.toNat - 55 else c.toNat - 87

def escapeValue (letter : CodeUnit) : CodeUnit :=
  if letter = 98 then 8 else if letter = 102 then 12 else if letter = 110 then 10 else if letter = 114 then 13
  else if letter = 116 then 9 else letter

def Piece.meaning : Piece → Meaning
  | .outside c => .outside c
  | .opens => .opens
  | .closes => .closes
  | .plain c => .inside c
  | .control c => .inside c
  | .escape letter => .inside (escapeValue letter)
  | .unicode a b c d => .inside (UInt16.ofNat (((hexValue a * 16 + hexValue b) * 16 + hexValue c) * 16 + hexValue d))
  | .stray => .inside backslash

section grammar

def isBlankUnit (c : CodeUnit) : Bool := c == 32 || c == 9 || c == 10 || c == 13

def AllDigits (text : JsString) : Prop := text ≠ [] ∧ ∀ c ∈ text, isDigit c = true

/-- An optional sign, an integer without a leading zero, a fraction and an exponent. -/
def IsNumber (text : JsString) : Prop :=
  ∃ sign whole fraction exponent, text = sign ++ whole ++ fraction ++ exponent ∧ sign ∈ [[], js "-"] ∧
    (whole = js "0" ∨ ∃ first rest, whole = first :: rest ∧ isNonZeroDigit first = true ∧ ∀ c ∈ rest, isDigit c = true) ∧
    (fraction = [] ∨ ∃ digits, fraction = js "." ++ digits ∧ AllDigits digits) ∧
    (exponent = [] ∨ ∃ mark side digits, exponent = mark ++ side ++ digits ∧ mark ∈ [js "e", js "E"] ∧
      side ∈ [[], js "+", js "-"] ∧ AllDigits digits)

inductive LiteralBody : JsString → Prop
  | nothing : LiteralBody []
  | plain {c : CodeUnit} {rest : JsString} (quote : c ≠ quoteMark) (mark : c ≠ backslash) (high : ¬ c < 32)
      (later : LiteralBody rest) : LiteralBody (c :: rest)
  | escape {letter : CodeUnit} {rest : JsString} (escapes : isEscapeLetter letter = true) (later : LiteralBody rest) :
      LiteralBody (backslash :: letter :: rest)
  | unicode {a b c d : CodeUnit} {rest : JsString} (hexA : isHex a = true) (hexB : isHex b = true) (hexC : isHex c = true)
      (hexD : isHex d = true) (later : LiteralBody rest) : LiteralBody (backslash :: 117 :: a :: b :: c :: d :: rest)

inductive Part where
  | value
  | element
  | elements
  | member
  | members

/-- The texts that are a JSON value, an element (a value in white space), and what stands between brackets and braces. -/
inductive Grammar : Part → JsString → Prop
  | word {text : JsString} (is : text ∈ [js "null", js "true", js "false"]) : Grammar .value text
  | number {text : JsString} (is : IsNumber text) : Grammar .value text
  | literal {body : JsString} (is : LiteralBody body) : Grammar .value ([quoteMark] ++ body ++ [quoteMark])
  | emptyArray {blank : JsString} (blanks : ∀ c ∈ blank, isBlankUnit c = true) : Grammar .value (js "[" ++ blank ++ js "]")
  | array {text : JsString} (items : Grammar .elements text) : Grammar .value (js "[" ++ text ++ js "]")
  | emptyObject {blank : JsString} (blanks : ∀ c ∈ blank, isBlankUnit c = true) : Grammar .value (js "\x7b" ++ blank ++ js "\x7d")
  | object {text : JsString} (fields : Grammar .members text) : Grammar .value (js "\x7b" ++ text ++ js "\x7d")
  | element {before text behind : JsString} (blanks : ∀ c ∈ before, isBlankUnit c = true) (value : Grammar .value text)
      (blanks' : ∀ c ∈ behind, isBlankUnit c = true) : Grammar .element (before ++ text ++ behind)
  | oneElement {text : JsString} (item : Grammar .element text) : Grammar .elements text
  | moreElements {text later : JsString} (item : Grammar .element text) (items : Grammar .elements later) :
      Grammar .elements (text ++ js "," ++ later)
  | member {before body behind text : JsString} (blanks : ∀ c ∈ before, isBlankUnit c = true) (key : LiteralBody body)
      (blanks' : ∀ c ∈ behind, isBlankUnit c = true) (value : Grammar .element text) :
      Grammar .member (before ++ ([quoteMark] ++ body ++ [quoteMark]) ++ behind ++ js ":" ++ text)
  | oneMember {text : JsString} (field : Grammar .member text) : Grammar .members text
  | moreMembers {text later : JsString} (field : Grammar .member text) (fields : Grammar .members later) :
      Grammar .members (text ++ js "," ++ later)

def ValidJson (text : JsString) : Prop := Grammar .element text

/-- A text made of pieces that fit, from one state to another. -/
def Reads (inString : Bool) (text : JsString) (behind : Bool) : Prop :=
  ∃ ps, text = render ps ∧ Fit inString ps ∧ after inString ps = behind

theorem fit_append {inString : Bool} {ps qs : List Piece} : Fit inString (ps ++ qs) ↔ Fit inString ps ∧ Fit (after inString ps) qs := by
  induction ps generalizing inString with
  | nil => simp [Fit, after]
  | cons piece rest ih =>
    rw [List.cons_append, Fit, Fit, ih, and_assoc]
    rfl

theorem reads_nil (inString : Bool) : Reads inString [] inString := ⟨[],rfl,trivial,rfl⟩

theorem reads_append {b b' b'' : Bool} {text later : JsString} (first : Reads b text b') (second : Reads b' later b'') :
    Reads b (text ++ later) b'' := by
  obtain ⟨ps,rfl,fit,rfl⟩ := first
  obtain ⟨qs,rfl,fit',rfl⟩ := second
  exact ⟨ps ++ qs,by simp [render],fit_append.mpr ⟨fit,fit'⟩,by simp [after]⟩

theorem reads_piece {inString : Bool} (piece : Piece) (fits : piece.Fits inString) : Reads inString piece.text piece.inside :=
  ⟨[piece],by simp [render],⟨fits,trivial⟩,rfl⟩

theorem reads_outside {text : JsString} (none' : quoteMark ∉ text) : Reads false text false := by
  induction text with
  | nil => exact reads_nil false
  | cons c rest ih =>
    have other : c ≠ quoteMark := fun same => none' (same ▸ List.mem_cons_self)
    exact reads_append (reads_piece (.outside c) ⟨rfl,other⟩) (ih fun mem => none' (List.mem_cons_of_mem c mem))

theorem reads_body {body : JsString} (is : LiteralBody body) : Reads true body true := by
  induction is with
  | nothing => exact reads_nil true
  | @plain c rest quote mark high _ ih => exact reads_append (reads_piece (.plain c) ⟨rfl,quote,mark,high⟩) ih
  | @escape letter rest escapes _ ih => exact reads_append (reads_piece (.escape letter) ⟨rfl,escapes⟩) ih
  | @unicode a b c d rest hexA hexB hexC hexD _ ih =>
    exact reads_append (reads_piece (.unicode a b c d) ⟨rfl,hexA,hexB,hexC,hexD⟩) ih

theorem reads_literal {body : JsString} (is : LiteralBody body) : Reads false ([quoteMark] ++ body ++ [quoteMark]) false :=
  reads_append (reads_append (reads_piece .opens rfl) (reads_body is)) (reads_piece .closes rfl)

theorem reads_blank {text : JsString} (blanks : ∀ c ∈ text, isBlankUnit c = true) : Reads false text false :=
  reads_outside fun mem => absurd (blanks quoteMark mem) (by decide)

theorem reads_number {text : JsString} (is : IsNumber text) : Reads false text false := by
  have digits : ∀ {text : JsString}, (∀ c ∈ text, isDigit c = true) → quoteMark ∉ text := fun all mem =>
    absurd (all quoteMark mem) (by decide)
  obtain ⟨sign,whole,fraction,exponent,rfl,signs,wholes,fractions,exponents⟩ := is
  have signFree : quoteMark ∉ sign := by
    have each : ∀ s ∈ [[], js "-"], quoteMark ∉ s := by decide
    exact each sign signs
  have wholeFree : quoteMark ∉ whole := by
    rcases wholes with rfl | ⟨first,rest,rfl,leads,all⟩
    · decide
    · intro mem
      rcases List.mem_cons.mp mem with rfl | later
      · exact absurd leads (by decide)
      · exact digits all later
  have fractionFree : quoteMark ∉ fraction := by
    rcases fractions with rfl | ⟨ds,rfl,-,all⟩
    · exact List.not_mem_nil
    · rw [List.mem_append, not_or]
      exact ⟨by decide,digits all⟩
  have exponentFree : quoteMark ∉ exponent := by
    rcases exponents with rfl | ⟨mark,side,ds,rfl,marks,sides,-,all⟩
    · exact List.not_mem_nil
    · have eachMark : ∀ s ∈ [js "e", js "E"], quoteMark ∉ s := by decide
      have eachSide : ∀ s ∈ [[], js "+", js "-"], quoteMark ∉ s := by decide
      rw [List.mem_append, List.mem_append, not_or, not_or]
      exact ⟨⟨eachMark mark marks,eachSide side sides⟩,digits all⟩
  refine reads_outside ?_
  rw [List.mem_append, List.mem_append, List.mem_append, not_or, not_or, not_or]
  exact ⟨⟨⟨signFree,wholeFree⟩,fractionFree⟩,exponentFree⟩

/-- A part of a JSON text leaves no literal open and has only pieces that fit. -/
theorem reads_grammar {part : Part} {text : JsString} (is : Grammar part text) : Reads false text false := by
  have mark : ∀ {text : JsString}, quoteMark ∉ text → Reads false text false := reads_outside
  induction is with
  | @word text is =>
    have each : ∀ s ∈ [js "null", js "true", js "false"], quoteMark ∉ s := by decide
    exact mark (each text is)
  | number is => exact reads_number is
  | literal is => exact reads_literal is
  | emptyArray blanks => exact reads_append (reads_append (mark (by decide)) (reads_blank blanks)) (mark (by decide))
  | array _ ih => exact reads_append (reads_append (mark (by decide)) ih) (mark (by decide))
  | emptyObject blanks => exact reads_append (reads_append (mark (by decide)) (reads_blank blanks)) (mark (by decide))
  | object _ ih => exact reads_append (reads_append (mark (by decide)) ih) (mark (by decide))
  | element blanks _ blanks' ih => exact reads_append (reads_append (reads_blank blanks) ih) (reads_blank blanks')
  | oneElement _ ih => exact ih
  | moreElements _ _ ih ih' => exact reads_append (reads_append ih (mark (by decide))) ih'
  | member blanks key blanks' _ ih =>
    exact reads_append (reads_append (reads_append (reads_append (reads_blank blanks) (reads_literal key)) (reads_blank blanks'))
      (mark (by decide))) ih
  | oneMember _ ih => exact ih
  | moreMembers _ _ ih ih' => exact reads_append (reads_append ih (mark (by decide))) ih'

theorem valid_fits {text : JsString} (valid : ValidJson text) : Fit false (pieces false text) := by
  obtain ⟨ps,rfl,fit,-⟩ := reads_grammar valid
  rw [pieces_render fit]
  exact fit

end grammar

end JsonText
