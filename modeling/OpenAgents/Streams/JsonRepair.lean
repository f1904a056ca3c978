import OpenAgents.Lib.JsonText
import OpenAgents.Lib.WhileLoop

/- Repair of JSON text from a model: raw control characters in string literals are escaped, and so is a
   backslash that begins no escape. -/
namespace JsonRepair
open JsText JsonText WhileLoop

/- The table `CONTROL_ESCAPES`, for a character below 0x20. -/
def controlEscape (cp : CodeUnit) : JsString :=
  if cp = 8 then js "\\b"
  else if cp = 9 then js "\\t"
  else if cp = 10 then js "\\n"
  else if cp = 12 then js "\\f"
  else if cp = 13 then js "\\r"
  else unicodeEscape cp

def isHexDigit (cp : CodeUnit) : Bool := (48 ≤ cp && cp ≤ 57) || (97 ≤ (cp ||| 32) && (cp ||| 32) ≤ 102)

def validEscapeChar (cp : CodeUnit) : Bool := (js "\"\\/bfnrtu").contains cp

/- `held` is `json.slice(lastEmit, i)` and `rest` is the text from `i` on. -/
structure Scan where
  parts : List JsString
  held : JsString
  rest : JsString
  inString : Bool
  deriving DecidableEq, Repr

def isPlain (cp : CodeUnit) : Bool := !(cp < 32 || cp == quoteMark || cp == backslash)

/- A part is pushed in the place of the character at `i`. -/
def Scan.replace (s : Scan) (skipped replacement rest : JsString) : Scan :=
  { s with parts := s.parts ++ [s.held ++ skipped, replacement], held := [], rest }

/- The four characters behind `\u`, all of them hexadecimal. -/
def fourHex : JsString → Option (JsString × JsString)
  | a :: b :: c :: d :: rest =>
      if isHexDigit a && isHexDigit b && isHexDigit c && isHexDigit d then some ([a, b, c, d], rest) else none
  | _ => none

def repairStep (s : Scan) : Scan ⊕ Scan :=
  if s.rest.isEmpty then .inr s
  else if !s.inString then
    let skipped := s.rest.takeWhile fun cp => cp ≠ quoteMark
    match s.rest.dropWhile fun cp => cp ≠ quoteMark with
    | [] => .inr { s with held := s.held ++ skipped, rest := [] }
    | quote :: rest => .inl { s with held := s.held ++ skipped ++ [quote], rest, inString := true }
  else
    let skipped := s.rest.takeWhile isPlain
    match s.rest.dropWhile isPlain with
    | [] => .inr { s with held := s.held ++ skipped, rest := [] }
    | cp :: rest =>
        if cp = quoteMark then .inl { s with held := s.held ++ skipped ++ [cp], rest, inString := false }
        else if cp = backslash then
          match rest with
          | [] => .inl (s.replace skipped [backslash, backslash] rest)
          | nextCp :: later =>
              if nextCp = 117 then
                match fourHex later with
                | some (digits, behind) => .inl { s with held := s.held ++ skipped ++ [cp, nextCp] ++ digits, rest := behind }
                | none => .inl (s.replace skipped [backslash, backslash] rest)
              else if validEscapeChar nextCp then .inl { s with held := s.held ++ skipped ++ [cp, nextCp], rest := later }
              else .inl (s.replace skipped [backslash, backslash] rest)
        else .inl (s.replace skipped (controlEscape cp) rest)

/- The parts joined; without any the text itself is returned. -/
def Scan.finish (json : JsString) (s : Scan) : JsString :=
  if s.parts.isEmpty then json else (s.parts ++ if s.held.isEmpty then [] else [s.held]).flatten

/- Every round takes a character, so that the fuel is enough. -/
def repairJson (json : JsString) : JsString :=
  ((loop repairStep (json.length + 1) ⟨[],[],json,false⟩).map (Scan.finish json)).getD json

/-- The piece that the repair puts in the place of another one. -/
def mend : Piece → Piece
  | .control c =>
      if c = 8 then .escape 98
      else if c = 9 then .escape 116
      else if c = 10 then .escape 110
      else if c = 12 then .escape 102
      else if c = 13 then .escape 114
      else .unicode (hexDigit (c.toNat / 4096)) (hexDigit (c.toNat / 256 % 16)) (hexDigit (c.toNat / 16 % 16)) (hexDigit (c.toNat % 16))
  | .stray => .escape backslash
  | piece => piece

theorem mend_control {c : CodeUnit} (low : c < 32) : (mend (.control c)).text = controlEscape c ∧ (mend (.control c)).Fits true := by
  have each : ∀ k : Fin 32, (mend (.control (UInt16.ofNat k.1))).text = controlEscape (UInt16.ofNat k.1) ∧
      (mend (.control (UInt16.ofNat k.1))).Fits true := by
    decide +kernel
  have bound : c.toNat < 32 := UInt16.lt_iff_toNat_lt.mp low
  have here := each ⟨c.toNat,bound⟩
  rwa [UInt16.ofNat_toNat] at here

theorem mend_meaning {piece : Piece} (low : ∀ c, piece = .control c → c < 32) : (mend piece).meaning = piece.meaning := by
  cases piece with
  | control c =>
    have each : ∀ k : Fin 32, (mend (.control (UInt16.ofNat k.1))).meaning = .inside (UInt16.ofNat k.1) := by decide +kernel
    have here := each ⟨c.toNat,UInt16.lt_iff_toNat_lt.mp (low c rfl)⟩
    rwa [UInt16.ofNat_toNat] at here
  | _ => rfl

theorem mend_inside (piece : Piece) : (mend piece).inside = piece.inside := by
  cases piece with
  | control c =>
    unfold mend
    dsimp only
    split_ifs <;> rfl
  | _ => rfl

theorem mend_fits {inString : Bool} {piece : Piece} (fits : piece.Fits inString) : mend piece = piece := by
  cases piece with
  | control c => exact fits.elim
  | stray => exact fits.elim
  | _ => rfl

theorem isHexDigit_isHex (c : CodeUnit) : isHexDigit c = isHex c := by
  by_cases low : c.toNat < 128
  · have each : ∀ k : Fin 128, isHexDigit (UInt16.ofNat k.1) = isHex (UInt16.ofNat k.1) := by decide +kernel
    have here := each ⟨c.toNat,low⟩
    rwa [UInt16.ofNat_toNat] at here
  · have large : c.toNat ≤ (c ||| 32).toNat := by
      rw [UInt16.toNat_or]
      exact Nat.left_le_or
    simp only [isHexDigit, isHex, isDigit, UInt16.le_iff_toNat_le, UInt16.reduceToNat]
    have no : ∀ n most, c.toNat ≤ n → most < 128 → decide (n ≤ most) = false := fun n most high small => by
      simp only [decide_eq_false_iff_not]
      omega
    rw [no _ 57 (Nat.le_refl _) (by omega), no _ 102 large (by omega), no _ 70 (Nat.le_refl _) (by omega),
      no _ 102 (Nat.le_refl _) (by omega)]
    simp only [Bool.and_false]
    rfl

theorem validEscape_letter {c : CodeUnit} (other : c ≠ 117) : validEscapeChar c = isEscapeLetter c := by
  have units : js "\"\\/bfnrtu" = js "\"\\/bfnrt" ++ [117] := by decide
  simp [validEscapeChar, isEscapeLetter, units, other]

/-- The text with every piece mended. -/
def mended (inString : Bool) (text : JsString) : JsString := render ((pieces inString text).map mend)

theorem mended_fits {inString : Bool} {piece : Piece} (fits : piece.Fits inString) (rest : JsString) :
    mended inString (piece.text ++ rest) = piece.text ++ mended piece.inside rest := by
  simp [mended, pieces_fits fits, mend_fits fits, render]

theorem mended_skip {inString : Bool} (piece : CodeUnit → Piece) {skipped : JsString}
    (each : ∀ c ∈ skipped, (piece c).text = [c] ∧ (piece c).Fits inString ∧ (piece c).inside = inString) (rest : JsString) :
    mended inString (skipped ++ rest) = skipped ++ mended inString rest := by
  induction skipped with
  | nil => rfl
  | cons c later ih =>
    obtain ⟨text,fits,inside⟩ := each c List.mem_cons_self
    have first := mended_fits fits (later ++ rest)
    rw [text, inside] at first
    rw [List.cons_append, ← List.singleton_append, first, ih fun d mem => each d (List.mem_cons_of_mem c mem)]
    rfl

theorem mended_outside {skipped : JsString} (free : ∀ c ∈ skipped, c ≠ quoteMark) (rest : JsString) :
    mended false (skipped ++ rest) = skipped ++ mended false rest :=
  mended_skip .outside (fun c mem => ⟨rfl,⟨rfl,free c mem⟩,rfl⟩) rest

theorem mended_plain {skipped : JsString} (plain : ∀ c ∈ skipped, isPlain c = true) (rest : JsString) :
    mended true (skipped ++ rest) = skipped ++ mended true rest := by
  refine mended_skip .plain (fun c mem => ?_) rest
  have is := plain c mem
  simp only [isPlain, Bool.not_eq_true', Bool.or_eq_false_iff, decide_eq_false_iff_not, beq_eq_false_iff_ne, ne_eq] at is
  exact ⟨rfl,⟨rfl,is.1.2,is.2,is.1.1⟩,rfl⟩

theorem mended_control {c : CodeUnit} (low : c < 32) (rest : JsString) : mended true (c :: rest) = controlEscape c ++ mended true rest := by
  have quote : c ≠ quoteMark := by rintro rfl; exact absurd low (by decide)
  have mark : c ≠ backslash := by rintro rfl; exact absurd low (by decide)
  have at' : pieceAt true c rest = .control c := by simp [pieceAt, quote, mark, low]
  rw [mended, pieces_cons, at', List.map_cons, render, List.flatMap_cons, (mend_control low).1]
  rfl

theorem mended_stray {rest : JsString} (alone : escapeAt rest = .stray) :
    mended true (backslash :: rest) = [backslash, backslash] ++ mended true rest := by
  have at' : pieceAt true backslash rest = .stray := alone
  rw [mended, pieces_cons, at']
  rfl

/-- From a state the loop leaves with the mended text; and unless a part is pushed, with the text itself. -/
structure Gives (s out : Scan) : Prop where
  text : out.parts.flatten ++ out.held = s.parts.flatten ++ s.held ++ mended s.inString s.rest
  kept : out.parts = [] → s.parts = [] ∧ out.held = s.held ++ s.rest

theorem gives_end {s : Scan} (same : mended s.inString s.rest = s.rest) : Gives s { s with held := s.held ++ s.rest, rest := [] } :=
  ⟨by simp [same],fun none' => ⟨none',rfl⟩⟩

theorem gives_advance {s out : Scan} {taken later : JsString} {inString : Bool} (rest : s.rest = taken ++ later)
    (same : mended s.inString (taken ++ later) = taken ++ mended inString later)
    (then_ : Gives { s with held := s.held ++ taken, rest := later, inString } out) : Gives s out := by
  refine ⟨?_,fun none' => ?_⟩
  · rw [then_.text, rest, same]
    simp
  · obtain ⟨parts,held⟩ := then_.kept none'
    exact ⟨parts,by rw [held, rest, List.append_assoc]⟩

theorem gives_replace {s out : Scan} {skipped replacement rest later : JsString} (is : s.rest = rest)
    (same : mended s.inString rest = skipped ++ replacement ++ mended s.inString later)
    (then_ : Gives (s.replace skipped replacement later) out) : Gives s out := by
  refine ⟨?_,fun none' => ?_⟩
  · rw [then_.text, is, same]
    simp [Scan.replace]
  · exact absurd (then_.kept none').1 (by simp [Scan.replace])

theorem fourHex_some {text digits behind : JsString} (found : fourHex text = some (digits, behind)) :
    ∃ a b c d, digits = [a, b, c, d] ∧ text = a :: b :: c :: d :: behind ∧
      isHex a = true ∧ isHex b = true ∧ isHex c = true ∧ isHex d = true := by
  unfold fourHex at found
  split at found
  next a b c d rest =>
    split at found
    next hex =>
      cases found
      simp only [isHexDigit_isHex, Bool.and_eq_true] at hex
      exact ⟨a,b,c,d,rfl,rfl,hex.1.1.1,hex.1.1.2,hex.1.2,hex.2⟩
    · cases found
  · cases found

theorem fourHex_none {text : JsString} (missing : fourHex text = none) : escapeAt (117 :: text) = .stray := by
  unfold fourHex at missing
  split at missing
  next a b c d rest =>
    split at missing
    · cases missing
    next hex =>
      simp only [isHexDigit_isHex] at hex
      simp [escapeAt, hex]
  next short =>
    unfold escapeAt
    split
    next a b c d rest is =>
      obtain ⟨-,rfl⟩ := List.cons_eq_cons.mp is
      exact absurd rfl (short a b c d rest)
    next letter rest is =>
      obtain ⟨rfl,-⟩ := List.cons_eq_cons.mp is
      rfl
    · rfl

theorem escapeAt_letter {letter : CodeUnit} (other : letter ≠ 117) (rest : JsString) :
    escapeAt (letter :: rest) = if isEscapeLetter letter then .escape letter else .stray := by
  unfold escapeAt
  split
  next is =>
    obtain ⟨same,-⟩ := List.cons_eq_cons.mp is
    exact absurd same other
  next is =>
    obtain ⟨rfl,-⟩ := List.cons_eq_cons.mp is
    rfl
  next is => cases is

theorem takeWhile_quote {text : JsString} : ∀ c ∈ text.takeWhile (fun cp => cp ≠ quoteMark), c ≠ quoteMark := fun c mem => by
  simpa using List.mem_takeWhile_imp mem

/-- A step outside a literal goes up to the next quote. -/
theorem step_outside {s : Scan} (outside : s.inString = false) (some' : s.rest.isEmpty = false) :
    (∀ out, repairStep s = .inr out → Gives s out) ∧ ∀ next out, repairStep s = .inl next → Gives next out → Gives s out := by
  have cut := List.takeWhile_append_dropWhile (p := fun cp => decide (cp ≠ quoteMark)) (l := s.rest)
  have free := @takeWhile_quote s.rest
  have unfolded : repairStep s = match s.rest.dropWhile fun cp => cp ≠ quoteMark with
      | [] => .inr { s with held := s.held ++ s.rest.takeWhile fun cp => cp ≠ quoteMark, rest := [] }
      | quote :: rest => .inl { s with held := s.held ++ (s.rest.takeWhile fun cp => cp ≠ quoteMark) ++ [quote], rest, inString := true } := by
    simp only [repairStep, some', outside, Bool.false_eq_true, if_false, Bool.not_false, if_true]
  rw [unfolded]
  cases left : s.rest.dropWhile fun cp => decide (cp ≠ quoteMark) with
  | nil =>
    rw [left, List.append_nil] at cut
    refine ⟨fun out is => ?_,fun next out is => nomatch is⟩
    cases is
    have whole := mended_outside free []
    rw [List.append_nil, cut] at whole
    rw [cut]
    refine gives_end ?_
    rw [outside, whole]
    exact List.append_nil _
  | cons quote rest =>
    refine ⟨fun out is => (nomatch is),fun next out is then_ => ?_⟩
    cases is
    have isQuote : quote = quoteMark := by
      have stops := List.head?_dropWhile_not (fun cp => decide (cp ≠ quoteMark)) s.rest
      rw [left] at stops
      simpa using stops
    rw [left] at cut
    have taken : s.rest = (s.rest.takeWhile fun cp => cp ≠ quoteMark) ++ [quote] ++ rest := by simpa using cut.symm
    refine gives_advance taken ?_ (by simpa using then_)
    rw [outside, isQuote, List.append_assoc, mended_outside free, List.append_assoc]
    exact congrArg _ (@mended_fits _ .opens rfl rest)

/-- A step inside a literal goes over what needs no care and then past the quote, the escape or the replaced character. -/
theorem step_inside {parts : List JsString} {held text : JsString} (some' : text.isEmpty = false) :
    (∀ out, repairStep ⟨parts,held,text,true⟩ = .inr out → Gives ⟨parts,held,text,true⟩ out) ∧
      ∀ next out, repairStep ⟨parts,held,text,true⟩ = .inl next → Gives next out → Gives ⟨parts,held,text,true⟩ out := by
  have cut := List.takeWhile_append_dropWhile (p := isPlain) (l := text)
  have plain : ∀ c ∈ text.takeWhile isPlain, isPlain c = true := fun c mem => List.mem_takeWhile_imp mem
  have skip := mended_plain plain
  simp only [repairStep, some', Bool.false_eq_true, if_false, Bool.not_true]
  cases left : text.dropWhile isPlain with
  | nil =>
    rw [left, List.append_nil] at cut
    refine ⟨fun out is => ?_,fun next out is => nomatch is⟩
    cases is
    have whole := skip []
    rw [List.append_nil, cut] at whole
    rw [cut]
    exact @gives_end ⟨parts,held,text,true⟩ (whole.trans (List.append_nil _))
  | cons cp rest =>
    have marked : isPlain cp = false := by
      have stops := List.head?_dropWhile_not isPlain text
      rwa [left] at stops
    rw [left] at cut
    simp only
    -- what is read behind the skipped characters, and what comes of it
    have past : ∀ taken later inString, cp :: rest = taken ++ later → mended true (cp :: rest) = taken ++ mended inString later →
        ∀ out, Gives ⟨parts,held ++ text.takeWhile isPlain ++ taken,later,inString⟩ out → Gives ⟨parts,held,text,true⟩ out := by
      intro taken later inString is same out then_
      have whole : text = text.takeWhile isPlain ++ taken ++ later := by rw [List.append_assoc, ← is, cut]
      refine @gives_advance ⟨parts,held,text,true⟩ out (text.takeWhile isPlain ++ taken) later inString whole ?_ ?_
      · rw [List.append_assoc, ← is, skip, same, List.append_assoc]
      · rw [← List.append_assoc]
        exact then_
    have instead : ∀ replacement, mended true (cp :: rest) = replacement ++ mended true rest →
        ∀ out, Gives (Scan.replace ⟨parts,held,text,true⟩ (text.takeWhile isPlain) replacement rest) out →
          Gives ⟨parts,held,text,true⟩ out := by
      intro replacement same out then_
      refine gives_replace rfl ?_ then_
      rw [List.append_assoc, ← same, ← skip, cut]
    split
    next quote =>
      refine ⟨fun out is => (nomatch is),fun next out is then_ => ?_⟩
      cases is
      rw [quote] at past
      exact past [quoteMark] rest false rfl (@mended_fits _ .closes rfl rest) out (by rw [quote] at then_; exact then_)
    next noQuote =>
      split
      next mark =>
        rw [mark] at past instead
        cases rest with
        | nil =>
          refine ⟨fun out is => (nomatch is),fun next out is then_ => ?_⟩
          cases is
          exact instead _ (mended_stray rfl) out then_
        | cons nextCp later =>
          simp only
          split
          next letterU =>
            subst letterU
            cases hex : fourHex later with
            | some found =>
              obtain ⟨digits,behind⟩ := found
              obtain ⟨a,b,c,d,rfl,rfl,hexA,hexB,hexC,hexD⟩ := fourHex_some hex
              refine ⟨fun out is => (nomatch is),fun next out is then_ => ?_⟩
              cases is
              have fits : (Piece.unicode a b c d).Fits true := ⟨rfl,hexA,hexB,hexC,hexD⟩
              refine past [backslash, 117, a, b, c, d] behind true rfl (mended_fits fits behind) out ?_
              rw [mark] at then_
              simpa using then_
            | none =>
              refine ⟨fun out is => (nomatch is),fun next out is then_ => ?_⟩
              cases is
              exact instead _ (mended_stray (fourHex_none hex)) out then_
          next other =>
            rw [validEscape_letter other]
            split
            next escapes =>
              refine ⟨fun out is => (nomatch is),fun next out is then_ => ?_⟩
              cases is
              have fits : (Piece.escape nextCp).Fits true := ⟨rfl,escapes⟩
              exact past [backslash, nextCp] later true rfl (mended_fits fits later) out (by rw [mark] at then_; exact then_)
            next bad =>
              refine ⟨fun out is => (nomatch is),fun next out is then_ => ?_⟩
              cases is
              exact instead _ (mended_stray (by rw [escapeAt_letter other, if_neg bad])) out then_
      next noMark =>
        have low : cp < 32 := by
          simp only [isPlain, Bool.not_eq_false', Bool.or_eq_true, decide_eq_true_eq, beq_iff_eq] at marked
          exact (marked.resolve_right noMark).resolve_right noQuote
        refine ⟨fun out is => (nomatch is),fun next out is then_ => ?_⟩
        cases is
        exact instead _ (mended_control low rest) out then_

theorem step_gives (s : Scan) : (∀ out, repairStep s = .inr out → Gives s out) ∧
    ∀ next out, repairStep s = .inl next → Gives next out → Gives s out := by
  obtain ⟨parts,held,text,inString⟩ := s
  cases empty : text.isEmpty with
  | true =>
    obtain rfl : text = [] := by simpa using empty
    refine ⟨fun out is => ?_,fun next out is => nomatch is⟩
    cases is
    exact ⟨by simp [mended, pieces, piecesFuel, render],fun none' => ⟨none',by simp⟩⟩
  | false =>
    cases inString with
    | false => exact step_outside rfl empty
    | true => exact step_inside empty

theorem step_shorter {s next : Scan} (steps : repairStep s = .inl next) : next.rest.length < s.rest.length := by
  have outside : (s.rest.dropWhile fun cp => decide (cp ≠ quoteMark)).length ≤ s.rest.length := (List.dropWhile_sublist _).length_le
  have inside : (s.rest.dropWhile isPlain).length ≤ s.rest.length := (List.dropWhile_sublist _).length_le
  unfold repairStep at steps
  split at steps
  · cases steps
  · split at steps
    · simp only at steps
      split at steps
      · cases steps
      next quote rest left =>
        cases steps
        rw [left, List.length_cons] at outside
        exact outside
    · simp only at steps
      split at steps
      · cases steps
      next cp rest left =>
        rw [left, List.length_cons] at inside
        split at steps
        · cases steps
          exact inside
        · split at steps
          · split at steps
            · cases steps
              exact inside
            next nextCp later =>
              rw [List.length_cons] at inside
              split at steps
              · split at steps
                next digits behind hex =>
                  obtain ⟨a,b,c,d,-,rfl,-⟩ := fourHex_some hex
                  cases steps
                  simp only [List.length_cons] at inside
                  simp only
                  omega
                · cases steps
                  simp only [Scan.replace, List.length_cons]
                  omega
              · split at steps
                · cases steps
                  simp only
                  omega
                · cases steps
                  simp only [Scan.replace, List.length_cons]
                  omega
          · cases steps
            exact inside

theorem repairJson_mended (json : JsString) : repairJson json = mended false json := by
  have enough : ∃ out, loop repairStep (json.length + 1) ⟨[],[],json,false⟩ = some out :=
    loop_ends (fun _ => True) (fun s => s.rest.length) (fun s next _ steps => ⟨trivial,step_shorter steps⟩) trivial
      (Nat.lt_succ_self _)
  obtain ⟨out,ends⟩ := enough
  have gives := loop_result Gives (fun s out => (step_gives s).1 out) (fun s next out => (step_gives s).2 next out) ends
  obtain ⟨text,kept⟩ := gives
  simp only [List.flatten_nil, List.nil_append] at text kept
  rw [repairJson, ends]
  simp only [Option.map_some, Option.getD_some, Scan.finish]
  cases none' : out.parts with
  | nil =>
    rw [none', List.flatten_nil, List.nil_append, (kept none').2] at text
    exact text
  | cons part parts =>
    rw [none'] at text
    rw [← text, List.isEmpty_cons, if_neg Bool.false_ne_true, List.flatten_append]
    cases held : out.held with
    | nil => rfl
    | cons c rest => simp

theorem pieces_mended (inString : Bool) (text : JsString) :
    Fit inString ((pieces inString text).map mend) ∧ ((pieces inString text).map mend).map Piece.meaning = (pieces inString text).map Piece.meaning := by
  induction inString, text using pieces_induction with
  | nil => exact ⟨trivial,rfl⟩
  | step inString c rest later is ih cut =>
    rw [cut, List.map_cons, List.map_cons, List.map_cons, Fit, mend_inside]
    rcases pieceAt_reads inString c rest with fits | ⟨rfl,alone | ⟨low,control⟩⟩
    · rw [mend_fits fits]
      exact ⟨⟨fits,ih.1⟩,by rw [ih.2]⟩
    · rw [alone] at ih ⊢
      exact ⟨⟨⟨rfl,rfl⟩,ih.1⟩,by rw [ih.2]; rfl⟩
    · rw [control] at ih ⊢
      refine ⟨⟨(mend_control low).2,ih.1⟩,?_⟩
      rw [ih.2, mend_meaning fun d same => (Piece.control.inj same) ▸ low]

theorem repairJson_pieces (json : JsString) : pieces false (repairJson json) = (pieces false json).map mend := by
  rw [repairJson_mended]
  exact pieces_render (pieces_mended false json).1

/-- The pieces of a text that fit are all left as they are. -/
theorem mended_fit {json : JsString} (fit : Fit false (pieces false json)) : repairJson json = json := by
  have same : ∀ {inString ps}, Fit inString ps → ps.map mend = ps := by
    intro inString ps fit
    induction ps generalizing inString with
    | nil => rfl
    | cons piece rest ih => rw [List.map_cons, mend_fits fit.1, ih fit.2]
  rw [repairJson_mended, mended, same fit, render_pieces]

/-- The repair of a text leaves valid JSON alone and has nothing to do on its own result. That result, read from the
    start, has only pieces that JSON allows, and outside and inside the literals the characters of the text. -/
theorem repairJson_repairs (json : JsString) :
    (ValidJson json → repairJson json = json) ∧ repairJson (repairJson json) = repairJson json ∧
      Fit false (pieces false (repairJson json)) ∧
      (pieces false (repairJson json)).map Piece.meaning = (pieces false json).map Piece.meaning := by
  obtain ⟨fit,same⟩ := pieces_mended false json
  rw [← repairJson_pieces] at fit same
  exact ⟨fun valid => mended_fit (valid_fits valid),mended_fit fit,fit,same⟩

example : repairJson (js "[\"a\n\\q\\u12\"") = js "[\"a\\n\\\\q\\\\u12\"" := by decide +kernel

end JsonRepair
