import OpenAgents.Lib.JsText
import Mathlib.Data.List.Pairwise
import Mathlib.Algebra.GroupWithZero.Nat

/- The editor's word wrap: the line is cut into words and runs of whitespace, and these are laid out in chunks
   of at most `maxWidth` columns that remember where in the line they stand. -/
namespace WordWrap
open JsText

structure Grapheme where
  text : JsString
  width : Nat
  visible : text ≠ []
  deriving DecidableEq

def textOf (gs : List Grapheme) : JsString := gs.flatMap Grapheme.text
def visibleWidth (gs : List Grapheme) : Nat := (gs.map Grapheme.width).sum
def lengthOf (gs : List Grapheme) : Nat := (textOf gs).length

/- The code units of the property `White_Space`, all of them in the basic plane. -/
def isUnicodeSpace (c : CodeUnit) : Bool :=
  (9 ≤ c && c ≤ 13) || c == 0x20 || c == 0x85 || c == 0xA0 || c == 0x1680 || (0x2000 ≤ c && c ≤ 0x200A) ||
    c == 0x2028 || c == 0x2029 || c == 0x202F || c == 0x205F || c == 0x3000

/- `getWordNavKind(grapheme) === "whitespace"`, which reads the first code point only. -/
def isNavWhitespace (g : Grapheme) : Bool := g.text.head?.any isUnicodeSpace

structure TextChunk where
  text : JsString
  startIndex : Nat
  endIndex : Nat
  deriving DecidableEq

structure Token where
  text : List Grapheme
  startIndex : Nat
  endIndex : Nat
  isWhitespace : Bool

structure Tokenizing where
  tokens : List Token
  currentToken : List Grapheme
  tokenStart : Nat
  inWhitespace : Bool
  charIndex : Nat

def pushToken (s : Tokenizing) : List Token :=
  s.tokens ++ [⟨s.currentToken,s.tokenStart,s.charIndex,s.inWhitespace⟩]

def readGrapheme (s : Tokenizing) (g : Grapheme) : Tokenizing :=
  let next := s.charIndex + g.text.length
  if s.currentToken = [] then ⟨s.tokens,[g],s.charIndex,isNavWhitespace g,next⟩
  else if isNavWhitespace g ≠ s.inWhitespace then ⟨pushToken s,[g],s.charIndex,isNavWhitespace g,next⟩
  else { s with currentToken := s.currentToken ++ [g], charIndex := next }

def tokensOf (line : List Grapheme) : List Token :=
  let s := line.foldl readGrapheme ⟨[],[],0,false,0⟩
  if s.currentToken = [] then s.tokens else pushToken s

def consumeFrom (availableWidth : Nat) : List Grapheme → Nat → Nat → List Grapheme → List Grapheme × Nat
  | taken, _, len, [] => (taken, len)
  | taken, prefixWidth, len, g :: rest =>
      if availableWidth < prefixWidth + g.width then (taken, len)
      else if prefixWidth + g.width = availableWidth then (taken ++ [g], len + g.text.length)
      else consumeFrom availableWidth (taken ++ [g]) (prefixWidth + g.width) (len + g.text.length) rest

def consumePrefixToWidth (text : List Grapheme) (availableWidth : Nat) : List Grapheme × Nat :=
  consumeFrom availableWidth [] 0 0 text

def hasWideGrapheme (text : List Grapheme) : Bool := text.any fun g => decide (1 < g.width)

/- `text.slice(len)`. -/
def slice : List Grapheme → Nat → List Grapheme
  | text, 0 => text
  | [], _ => []
  | g :: rest, len => slice rest (len - g.text.length)

structure Wrapping where
  chunks : List TextChunk
  currentChunk : List Grapheme
  currentWidth : Nat
  chunkStartIndex : Nat
  atLineStart : Bool

structure Breaking where
  chunks : List TextChunk
  tokenChunk : List Grapheme
  tokenChunkWidth : Nat
  tokenChunkStart : Nat
  tokenCharIndex : Nat

def breakGrapheme (maxWidth : Nat) (s : Breaking) (g : Grapheme) : Breaking :=
  let next := s.tokenCharIndex + g.text.length
  if maxWidth < s.tokenChunkWidth + g.width ∧ s.tokenChunk ≠ [] then
    ⟨s.chunks ++ [⟨textOf s.tokenChunk,s.tokenChunkStart,s.tokenCharIndex⟩],[g],g.width,s.tokenCharIndex,next⟩
  else ⟨s.chunks,s.tokenChunk ++ [g],s.tokenChunkWidth + g.width,s.tokenChunkStart,next⟩

/- The prefix of a long token that fills the line under way. -/
def consumedPrefix (maxWidth : Nat) (s : Wrapping) (token : Token) : List Grapheme × Nat :=
  if s.currentChunk ≠ [] ∧ s.currentWidth < maxWidth then
    consumePrefixToWidth token.text (maxWidth - s.currentWidth)
  else ([], 0)

def pushAccumulated (s : Wrapping) (token : Token) (consumed : List Grapheme × Nat) : Wrapping :=
  if s.currentChunk = [] then s
  else if consumed.1 ≠ [] then
    { s with chunks := s.chunks ++ [⟨textOf s.currentChunk ++ textOf consumed.1,s.chunkStartIndex,
               token.startIndex + consumed.2⟩],
             currentChunk := [], currentWidth := 0, chunkStartIndex := token.startIndex + consumed.2 }
  else
    { s with chunks := s.chunks ++ [⟨textOf s.currentChunk,s.chunkStartIndex,token.startIndex⟩],
             currentChunk := [], currentWidth := 0, chunkStartIndex := token.startIndex }

def breakToken (maxWidth : Nat) (s : Wrapping) (token : Token) : Wrapping :=
  let consumed := consumedPrefix maxWidth s token
  let s := pushAccumulated s token consumed
  let remainingText := if 0 < consumed.2 then slice token.text consumed.2 else token.text
  let start := token.startIndex + consumed.2
  let b := remainingText.foldl (breakGrapheme maxWidth) ⟨s.chunks,[],0,start,start⟩
  if b.tokenChunk = [] then { s with chunks := b.chunks }
  else { s with chunks := b.chunks, currentChunk := b.tokenChunk, currentWidth := b.tokenChunkWidth,
                chunkStartIndex := b.tokenChunkStart }

def wrapLine (s : Wrapping) (token : Token) (tokenWidth : Nat) : Wrapping :=
  let trimmedChunk := trimEnd (textOf s.currentChunk)
  let chunks :=
    if trimmedChunk ≠ [] ∨ s.chunks = [] then
      s.chunks ++ [⟨trimmedChunk,s.chunkStartIndex,s.chunkStartIndex + lengthOf s.currentChunk⟩]
    else s.chunks
  if token.isWhitespace then ⟨chunks,[],0,token.endIndex,true⟩
  else ⟨chunks,token.text,tokenWidth,token.startIndex,false⟩

/- A token that fits in a line of its own but no longer in this one. -/
def overflow (maxWidth : Nat) (s : Wrapping) (token : Token) (tokenWidth : Nat) : Wrapping :=
  if s.currentChunk ≠ [] ∧ token.isWhitespace = false ∧ s.currentWidth < maxWidth ∧
      hasWideGrapheme token.text = true then
    let consumed := consumePrefixToWidth token.text (maxWidth - s.currentWidth)
    if consumed.1 ≠ [] then
      let remainder := slice token.text consumed.2
      ⟨s.chunks ++ [⟨textOf s.currentChunk ++ textOf consumed.1,s.chunkStartIndex,token.startIndex + consumed.2⟩],
        remainder,visibleWidth remainder,token.startIndex + consumed.2,false⟩
    else wrapLine s token tokenWidth
  else wrapLine s token tokenWidth

def placeToken (maxWidth : Nat) (s : Wrapping) (token : Token) : Wrapping :=
  let tokenWidth := visibleWidth token.text
  if s.atLineStart = true ∧ token.isWhitespace = true then { s with chunkStartIndex := token.endIndex }
  else
    let s := { s with atLineStart := false }
    if maxWidth < tokenWidth then breakToken maxWidth s token
    else if maxWidth < s.currentWidth + tokenWidth then overflow maxWidth s token tokenWidth
    else { s with currentChunk := s.currentChunk ++ token.text, currentWidth := s.currentWidth + tokenWidth }

def wordWrapLine (line : List Grapheme) (maxWidth : Nat) : List TextChunk :=
  if line = [] ∨ maxWidth = 0 then [⟨[],0,0⟩]
  else if visibleWidth line ≤ maxWidth then [⟨textOf line,0,lengthOf line⟩]
  else
    let s := (tokensOf line).foldl (placeToken maxWidth) ⟨[],[],0,0,true⟩
    let chunks :=
      if s.currentChunk = [] then s.chunks
      else s.chunks ++ [⟨textOf s.currentChunk,s.chunkStartIndex,lengthOf line⟩]
    if chunks = [] then [⟨[],0,0⟩] else chunks

@[simp] theorem textOf_append (xs ys : List Grapheme) : textOf (xs ++ ys) = textOf xs ++ textOf ys :=
  List.flatMap_append

@[simp] theorem lengthOf_nil : lengthOf [] = 0 := rfl

@[simp] theorem lengthOf_append (xs ys : List Grapheme) : lengthOf (xs ++ ys) = lengthOf xs + lengthOf ys := by
  simp [lengthOf]

@[simp] theorem lengthOf_one (g : Grapheme) : lengthOf [g] = g.text.length := by simp [lengthOf, textOf]

@[simp] theorem visibleWidth_nil : visibleWidth [] = 0 := rfl

@[simp] theorem visibleWidth_append (xs ys : List Grapheme) :
    visibleWidth (xs ++ ys) = visibleWidth xs + visibleWidth ys := by
  simp [visibleWidth]

@[simp] theorem visibleWidth_one (g : Grapheme) : visibleWidth [g] = g.width := by simp [visibleWidth]

theorem text_length_pos (g : Grapheme) : 0 < g.text.length := List.length_pos_iff.mpr g.visible

theorem lengthOf_pos {gs : List Grapheme} (nonempty : gs ≠ []) : 0 < lengthOf gs := by
  obtain ⟨g,rest,rfl⟩ := List.exists_cons_of_ne_nil nonempty
  have first := text_length_pos g
  have both := lengthOf_append [g] rest
  simp only [List.singleton_append, lengthOf_one] at both
  omega

/- A token where it stands in the line, behind `before`. -/
structure Stands (before : List Grapheme) (token : Token) : Prop where
  starts : token.startIndex = lengthOf before
  ends : token.endIndex = lengthOf (before ++ token.text)
  blank : token.isWhitespace = true → ∀ g ∈ token.text, isNavWhitespace g = true

inductive Cut : List Grapheme → List Token → Prop
  | start : Cut [] []
  | token {before : List Grapheme} {tokens : List Token} {token : Token} (cut : Cut before tokens)
      (stands : Stands before token) : Cut (before ++ token.text) (tokens ++ [token])

structure Tokenized (done before : List Grapheme) (s : Tokenizing) : Prop where
  parts : done = before ++ s.currentToken
  cut : Cut before s.tokens
  starts : s.currentToken ≠ [] → s.tokenStart = lengthOf before
  counts : s.charIndex = lengthOf done
  kind : ∀ g ∈ s.currentToken, isNavWhitespace g = s.inWhitespace

theorem pushToken_cut {done before : List Grapheme} {s : Tokenizing} (read : Tokenized done before s)
    (underWay : s.currentToken ≠ []) : Cut done (pushToken s) := by
  have stands : Stands before ⟨s.currentToken,s.tokenStart,s.charIndex,s.inWhitespace⟩ :=
    { starts := read.starts underWay
      ends := by rw [read.counts, read.parts]
      blank := fun white g member => (read.kind g member).trans white }
  rw [read.parts]
  exact .token read.cut stands

theorem readGrapheme_step {done before : List Grapheme} {s : Tokenizing} (read : Tokenized done before s)
    (g : Grapheme) : ∃ before', Tokenized (done ++ [g]) before' (readGrapheme s g) := by
  unfold readGrapheme
  split
  next empty =>
    have all : done = before := by simpa [empty] using read.parts
    refine ⟨before,?_⟩
    constructor
    · simp [all]
    · exact read.cut
    · intro _
      rw [read.counts, all]
    · simp [read.counts]
    · simp
  next underWay =>
    split
    next other =>
      refine ⟨done,?_⟩
      constructor
      · rfl
      · exact pushToken_cut read underWay
      · intro _
        exact read.counts
      · simp [read.counts]
      · simp
    next same =>
      refine ⟨before,?_⟩
      constructor
      · simp [read.parts]
      · exact read.cut
      · intro _
        exact read.starts underWay
      · simp [read.counts]
      · intro g' member
        simp only [List.mem_append, List.mem_singleton] at member
        rcases member with earlier | rfl
        · exact read.kind g' earlier
        · exact not_not.mp same

theorem readGraphemes (gs : List Grapheme) {done before : List Grapheme} {s : Tokenizing}
    (read : Tokenized done before s) : ∃ before', Tokenized (done ++ gs) before' (gs.foldl readGrapheme s) := by
  induction gs generalizing done before s with
  | nil => exact ⟨before,by simpa using read⟩
  | cons g rest ih =>
    obtain ⟨next,one⟩ := readGrapheme_step read g
    obtain ⟨last,all⟩ := ih one
    exact ⟨last,by simpa using all⟩

theorem tokensOf_cut (line : List Grapheme) : Cut line (tokensOf line) := by
  have first : Tokenized [] [] ⟨[],[],0,false,0⟩ := ⟨rfl,.start,by simp,rfl,by simp⟩
  obtain ⟨before,read⟩ := readGraphemes line first
  rw [List.nil_append] at read
  unfold tokensOf
  simp only
  split
  next empty =>
    have all : line = before := by simpa [empty] using read.parts
    rw [all]
    exact all ▸ read.cut
  next underWay => exact pushToken_cut read underWay

def Fits (maxWidth : Nat) (gs : List Grapheme) : Prop := visibleWidth gs ≤ maxWidth ∨ gs.length = 1

/- A line laid out from left to right in chunks and graphemes that are left out between them. -/
inductive Laid (leftOut : Grapheme → Prop) (maxWidth : Nat) : List Grapheme → List TextChunk → Prop
  | start : Laid leftOut maxWidth [] []
  | skip {before skipped : List Grapheme} {chunks : List TextChunk} (laid : Laid leftOut maxWidth before chunks)
      (blank : ∀ g ∈ skipped, leftOut g) : Laid leftOut maxWidth (before ++ skipped) chunks
  | chunk {before inside : List Grapheme} {chunks : List TextChunk} {text trailing : JsString}
      (laid : Laid leftOut maxWidth before chunks) (nonempty : inside ≠ [])
      (keeps : textOf inside = text ++ trailing) (spaces : ∀ c ∈ trailing, isWhitespace c = true)
      (fits : Fits maxWidth inside) :
      Laid leftOut maxWidth (before ++ inside) (chunks ++ [⟨text,lengthOf before,lengthOf (before ++ inside)⟩])

theorem laid_whole {leftOut : Grapheme → Prop} {maxWidth : Nat} {before inside : List Grapheme}
    {chunks : List TextChunk} (laid : Laid leftOut maxWidth before chunks) (nonempty : inside ≠ [])
    (fits : Fits maxWidth inside) :
    Laid leftOut maxWidth (before ++ inside)
      (chunks ++ [⟨textOf inside,lengthOf before,lengthOf (before ++ inside)⟩]) :=
  .chunk laid nonempty (List.append_nil _).symm (by simp) fits

theorem consumeFrom_prefix {availableWidth : Nat} (text taken : List Grapheme) (room : visibleWidth taken ≤ availableWidth) :
    ∃ more rest, text = more ++ rest ∧ visibleWidth (taken ++ more) ≤ availableWidth ∧
      consumeFrom availableWidth taken (visibleWidth taken) (lengthOf taken) text =
        (taken ++ more, lengthOf (taken ++ more)) := by
  induction text generalizing taken with
  | nil => exact ⟨[],[],rfl,by simpa using room,by simp [consumeFrom]⟩
  | cons g rest ih =>
    unfold consumeFrom
    split
    next full => exact ⟨[],g :: rest,rfl,by simpa using room,by simp⟩
    next fitting =>
      split
      next exact' => exact ⟨[g],rest,rfl,by simpa using exact'.le,by simp⟩
      next _ =>
        have width : visibleWidth (taken ++ [g]) = visibleWidth taken + g.width := by simp
        have length : lengthOf (taken ++ [g]) = lengthOf taken + g.text.length := by simp
        obtain ⟨more,others,cut,fits,result⟩ := ih (taken ++ [g]) (by omega)
        rw [width, length] at result
        exact ⟨g :: more,others,by simp [cut],by simpa using fits,by simpa using result⟩

theorem consumePrefixToWidth_prefix (text : List Grapheme) (availableWidth : Nat) :
    ∃ taken rest, text = taken ++ rest ∧ visibleWidth taken ≤ availableWidth ∧
      consumePrefixToWidth text availableWidth = (taken, lengthOf taken) := by
  obtain ⟨taken,rest,cut,fits,result⟩ := consumeFrom_prefix text [] (show visibleWidth [] ≤ availableWidth from Nat.zero_le _)
  exact ⟨taken,rest,cut,fits,result⟩

theorem slice_append (taken rest : List Grapheme) : slice (taken ++ rest) (lengthOf taken) = rest := by
  induction taken with
  | nil => cases rest <;> rfl
  | cons g others ih =>
    have length : lengthOf (g :: others) = g.text.length + lengthOf others := by
      simpa using lengthOf_append [g] others
    have positive := text_length_pos g
    obtain ⟨n,succ⟩ : ∃ n, lengthOf (g :: others) = n + 1 := ⟨lengthOf (g :: others) - 1,by omega⟩
    have left : n + 1 - g.text.length = lengthOf others := by omega
    rw [succ, List.cons_append, slice, left, ih]
    exact Nat.succ_ne_zero n

/- The wrapping once the graphemes of `done` are behind it: those of the current chunk are still open. -/
structure Placed (leftOut : Grapheme → Prop) (maxWidth : Nat) (done before : List Grapheme) (s : Wrapping) : Prop where
  parts : done = before ++ s.currentChunk
  laid : Laid leftOut maxWidth before s.chunks
  starts : s.chunkStartIndex = lengthOf before
  width : s.currentWidth = visibleWidth s.currentChunk
  fits : Fits maxWidth s.currentChunk
  fresh : s.atLineStart = true → s.currentChunk = []

structure Broken (leftOut : Grapheme → Prop) (maxWidth : Nat) (done before : List Grapheme) (b : Breaking) : Prop where
  parts : done = before ++ b.tokenChunk
  laid : Laid leftOut maxWidth before b.chunks
  starts : b.tokenChunkStart = lengthOf before
  counts : b.tokenCharIndex = lengthOf done
  width : b.tokenChunkWidth = visibleWidth b.tokenChunk
  fits : Fits maxWidth b.tokenChunk

section
variable {leftOut : Grapheme → Prop} {maxWidth : Nat}

variable {b : Breaking} {s : Wrapping} {token : Token}

theorem breakGrapheme_step {done before : List Grapheme} (broken : Broken leftOut maxWidth done before b) (g : Grapheme) : ∃ before', Broken leftOut maxWidth (done ++ [g]) before' (breakGrapheme maxWidth b g) := by
  unfold breakGrapheme
  simp only
  split
  next full =>
    have pushed := laid_whole broken.laid full.2 broken.fits
    rw [← broken.parts, ← broken.starts, ← broken.counts] at pushed
    exact ⟨done,rfl,pushed,broken.counts,by simp [broken.counts],by simp,.inr rfl⟩
  next room =>
    have fits : Fits maxWidth (b.tokenChunk ++ [g]) := by
      by_cases empty : b.tokenChunk = []
      · right
        simp [empty]
      · left
        have within : ¬ maxWidth < b.tokenChunkWidth + g.width := fun wide => room ⟨wide,empty⟩
        rw [visibleWidth_append, visibleWidth_one, ← broken.width]
        omega
    exact ⟨before,by simp [broken.parts],broken.laid,broken.starts,by simp [broken.counts],by simp [broken.width],fits⟩

theorem breakGraphemes (gs : List Grapheme) {done before : List Grapheme} (broken : Broken leftOut maxWidth done before b) :
    ∃ before', Broken leftOut maxWidth (done ++ gs) before' (gs.foldl (breakGrapheme maxWidth) b) := by
  induction gs generalizing done before b with
  | nil => exact ⟨before,by simpa using broken⟩
  | cons g rest ih =>
    obtain ⟨next,one⟩ := breakGrapheme_step broken g
    obtain ⟨last,all⟩ := ih one
    exact ⟨last,by simpa using all⟩

theorem breakGraphemes_open {gs : List Grapheme} (nonempty : gs ≠ []) (b : Breaking) :
    (gs.foldl (breakGrapheme maxWidth) b).tokenChunk ≠ [] := by
  obtain ⟨earlier,last,rfl⟩ := List.eq_nil_or_concat gs |>.resolve_left nonempty
  rw [List.concat_eq_append, List.foldl_append, List.foldl_cons, List.foldl_nil]
  unfold breakGrapheme
  simp only
  split <;> simp

/- What the current chunk takes over of a token keeps it within the width. -/
theorem filled_fits {done before taken : List Grapheme} (placed : Placed leftOut maxWidth done before s)
    (room : s.currentWidth < maxWidth) (within : visibleWidth taken ≤ maxWidth - s.currentWidth) :
    Fits maxWidth (s.currentChunk ++ taken) := by
  left
  rw [visibleWidth_append, ← placed.width]
  omega

theorem consumedPrefix_prefix {done before : List Grapheme} (placed : Placed leftOut maxWidth done before s) (token : Token) :
    ∃ taken rest, token.text = taken ++ rest ∧ consumedPrefix maxWidth s token = (taken, lengthOf taken) ∧
      (s.currentChunk = [] → taken = []) ∧ Fits maxWidth (s.currentChunk ++ taken) := by
  unfold consumedPrefix
  split
  next room =>
    obtain ⟨taken,rest,cut,within,result⟩ :=
      consumePrefixToWidth_prefix token.text (maxWidth - s.currentWidth)
    exact ⟨taken,rest,cut,result,fun empty => absurd empty room.1,filled_fits placed room.2 within⟩
  next _ => exact ⟨[],token.text,rfl,rfl,fun _ => rfl,by simpa using placed.fits⟩

theorem pushAccumulated_placed {done before taken : List Grapheme} (placed : Placed leftOut maxWidth done before s)
    (stands : Stands done token) (none' : s.currentChunk = [] → taken = []) (fits : Fits maxWidth (s.currentChunk ++ taken)) :
    Placed leftOut maxWidth (done ++ taken) (done ++ taken) (pushAccumulated s token (taken, lengthOf taken)) ∧
      (pushAccumulated s token (taken, lengthOf taken)).currentChunk = [] := by
  have whole : before ++ (s.currentChunk ++ taken) = done ++ taken := by rw [placed.parts, List.append_assoc]
  unfold pushAccumulated
  split
  next empty =>
    have all : done = before := by simpa [empty] using placed.parts
    rw [none' empty, List.append_nil]
    refine ⟨⟨by simp [empty],all ▸ placed.laid,all ▸ placed.starts,placed.width,placed.fits,placed.fresh⟩,empty⟩
  next open' =>
    have pushed := laid_whole placed.laid (by simp [open']) fits
    rw [whole, ← placed.starts] at pushed
    split
    next some' =>
      rw [textOf_append, lengthOf_append done taken, ← stands.starts] at pushed
      exact ⟨⟨by simp,pushed,by simp [stands.starts],rfl,.inl (Nat.zero_le _),fun _ => rfl⟩,rfl⟩
    next nothing =>
      have empty : taken = [] := not_not.mp nothing
      rw [empty, List.append_nil, List.append_nil, ← stands.starts] at pushed
      rw [empty, List.append_nil]
      exact ⟨⟨by simp,pushed,stands.starts,rfl,.inl (Nat.zero_le _),fun _ => rfl⟩,rfl⟩

theorem pushAccumulated_atLineStart (s : Wrapping) (token : Token) (consumed : List Grapheme × Nat) :
    (pushAccumulated s token consumed).atLineStart = s.atLineStart := by
  unfold pushAccumulated
  split
  · rfl
  · split <;> rfl

theorem remaining_slice {text taken rest : List Grapheme} (cut : text = taken ++ rest) :
    (if 0 < lengthOf taken then slice text (lengthOf taken) else text) = rest := by
  split
  next _ => rw [cut, slice_append]
  next nothing =>
    have empty : taken = [] := by
      by_contra some'
      exact nothing (lengthOf_pos some')
    rw [cut, empty, List.nil_append]

theorem breakToken_placed {done before : List Grapheme} (placed : Placed leftOut maxWidth done before s)
    (stands : Stands done token) (begun : s.atLineStart = false) :
    ∃ before', Placed leftOut maxWidth (done ++ token.text) before' (breakToken maxWidth s token) := by
  obtain ⟨taken,rest,cut,consumed,none',fits⟩ := consumedPrefix_prefix placed token
  obtain ⟨pushed,emptied⟩ := pushAccumulated_placed placed stands none' fits
  have start : token.startIndex + lengthOf taken = lengthOf (done ++ taken) := by rw [stands.starts, lengthOf_append]
  have behind : done ++ token.text = done ++ taken ++ rest := by rw [cut, List.append_assoc]
  have still := (pushAccumulated_atLineStart s token (taken, lengthOf taken)).trans begun
  have first : Broken leftOut maxWidth (done ++ taken) (done ++ taken)
      ⟨(pushAccumulated s token (taken, lengthOf taken)).chunks,[],0,lengthOf (done ++ taken),lengthOf (done ++ taken)⟩ :=
    ⟨by simp,pushed.laid,rfl,rfl,rfl,.inl (Nat.zero_le _)⟩
  obtain ⟨last,broken⟩ := breakGraphemes rest first
  rw [behind]
  unfold breakToken
  simp only [consumed, remaining_slice cut, start]
  split
  next empty =>
    have none : rest = [] := by
      by_contra more
      exact breakGraphemes_open more _ empty
    rw [none, List.foldl_nil, List.append_nil]
    exact ⟨done ++ taken,pushed⟩
  next open' =>
    refine ⟨last,⟨broken.parts,broken.laid,broken.starts,broken.width,broken.fits,?_⟩⟩
    intro fresh
    rw [still] at fresh
    cases fresh

end

def Blank (g : Grapheme) : Prop := isNavWhitespace g = true ∨ ∀ c ∈ g.text, isWhitespace c = true

section
variable {maxWidth : Nat} {s : Wrapping} {done before : List Grapheme} {token : Token}

/- The chunk is shown without its trailing whitespace, and not at all when nothing is left of it. -/
theorem trimmed_laid (placed : Placed Blank maxWidth done before s) (nonempty : s.currentChunk ≠ []) :
    Laid Blank maxWidth done
      (if trimEnd (textOf s.currentChunk) ≠ [] ∨ s.chunks = [] then
        s.chunks ++ [⟨trimEnd (textOf s.currentChunk),s.chunkStartIndex,s.chunkStartIndex + lengthOf s.currentChunk⟩]
      else s.chunks) := by
  split
  next shown =>
    have pushed := Laid.chunk placed.laid nonempty (List.rdropWhile_append_rtakeWhile).symm
      (fun c member => List.mem_rtakeWhile_imp member) placed.fits
    rw [← placed.parts, ← placed.starts] at pushed
    rw [placed.parts, lengthOf_append, ← placed.starts] at pushed
    rw [placed.parts]
    exact pushed
  next hidden =>
    have invisible : trimEnd (textOf s.currentChunk) = [] := not_not.mp fun shown => hidden (.inl shown)
    have spaces : ∀ c ∈ textOf s.currentChunk, isWhitespace c = true := List.rdropWhile_eq_nil_iff.mp invisible
    rw [placed.parts]
    refine .skip placed.laid fun g member => .inr fun c inside => spaces c ?_
    exact List.mem_flatMap.mpr ⟨g,member,inside⟩

theorem wrapLine_placed (placed : Placed Blank maxWidth done before s) (stands : Stands done token)
    (narrow : visibleWidth token.text ≤ maxWidth) (full : maxWidth < s.currentWidth + visibleWidth token.text) :
    ∃ before', Placed Blank maxWidth (done ++ token.text) before' (wrapLine s token (visibleWidth token.text)) := by
  have nonempty : s.currentChunk ≠ [] := by
    intro empty
    rw [placed.width, empty, visibleWidth_nil] at full
    omega
  have pushed := trimmed_laid placed nonempty
  unfold wrapLine
  simp only
  split
  next white =>
    refine ⟨done ++ token.text,⟨by simp,?_,stands.ends,rfl,.inl (Nat.zero_le _),fun _ => rfl⟩⟩
    exact .skip pushed fun g member => .inl (stands.blank white g member)
  next _ => exact ⟨done,⟨rfl,pushed,stands.starts,rfl,.inl narrow,by simp⟩⟩

theorem overflow_placed (placed : Placed Blank maxWidth done before s) (stands : Stands done token)
    (narrow : visibleWidth token.text ≤ maxWidth) (full : maxWidth < s.currentWidth + visibleWidth token.text) :
    ∃ before', Placed Blank maxWidth (done ++ token.text) before' (overflow maxWidth s token (visibleWidth token.text)) := by
  unfold overflow
  split
  next fill =>
    obtain ⟨taken,rest,cut,within,result⟩ :=
      consumePrefixToWidth_prefix token.text (maxWidth - s.currentWidth)
    simp only [result]
    split
    next some' =>
      have whole : before ++ (s.currentChunk ++ taken) = done ++ taken := by rw [placed.parts, List.append_assoc]
      have pushed := laid_whole placed.laid (by simp [fill.1]) (filled_fits placed fill.2.2.1 within)
      rw [whole, ← placed.starts, textOf_append, lengthOf_append done taken, ← stands.starts] at pushed
      have remainder : slice token.text (lengthOf taken) = rest := by rw [cut, slice_append]
      have fits : visibleWidth rest ≤ maxWidth := by
        rw [cut, visibleWidth_append] at narrow
        omega
      rw [remainder]
      refine ⟨done ++ taken,⟨by simp [cut],pushed,by simp [stands.starts],rfl,.inl fits,by simp⟩⟩
    next _ => exact wrapLine_placed placed stands narrow full
  next _ => exact wrapLine_placed placed stands narrow full

theorem placeToken_step (placed : Placed Blank maxWidth done before s) (stands : Stands done token) :
    ∃ before', Placed Blank maxWidth (done ++ token.text) before' (placeToken maxWidth s token) := by
  have begun : Placed Blank maxWidth done before { s with atLineStart := false } :=
    ⟨placed.parts,placed.laid,placed.starts,placed.width,placed.fits,by simp⟩
  unfold placeToken
  simp only
  split
  next leading =>
    have empty := placed.fresh leading.1
    have all : done = before := by simpa [empty] using placed.parts
    have skipped : Laid Blank maxWidth (done ++ token.text) s.chunks :=
      .skip (all ▸ placed.laid) fun g member => .inl (stands.blank leading.2 g member)
    exact ⟨done ++ token.text,⟨by simp [empty],skipped,stands.ends,placed.width,placed.fits,placed.fresh⟩⟩
  next _ =>
    split
    next _ => exact breakToken_placed begun stands rfl
    next narrow =>
      split
      next full => exact overflow_placed begun stands (by omega) full
      next room =>
        have fits : Fits maxWidth (s.currentChunk ++ token.text) := by
          left
          rw [visibleWidth_append, ← placed.width]
          omega
        refine ⟨before,⟨by simp [placed.parts],placed.laid,placed.starts,?_,fits,by simp⟩⟩
        rw [visibleWidth_append, ← placed.width]

theorem placeTokens {line : List Grapheme} {tokens : List Token} (cut : Cut line tokens) :
    ∃ before, Placed Blank maxWidth line before (tokens.foldl (placeToken maxWidth) ⟨[],[],0,0,true⟩) := by
  induction cut with
  | start => exact ⟨[],⟨rfl,.start,rfl,rfl,.inl (Nat.zero_le _),fun _ => rfl⟩⟩
  | token _ stands ih =>
    obtain ⟨before,placed⟩ := ih
    rw [List.foldl_append]
    exact placeToken_step placed stands

end

/- The chunk's range holds the grapheme `g` that stands behind `before`. -/
def Holds (c : TextChunk) (before : List Grapheme) (g : Grapheme) : Prop :=
  c.startIndex ≤ lengthOf before ∧ lengthOf (before ++ [g]) ≤ c.endIndex

/- The text of the chunk is that of its range up to what `trimEnd` removes, and the range is narrow enough. -/
def Shows (line : List Grapheme) (maxWidth : Nat) (c : TextChunk) : Prop :=
  ∃ before inside after trailing, line = before ++ inside ++ after ∧ c.startIndex = lengthOf before ∧
    c.endIndex = lengthOf (before ++ inside) ∧ textOf inside = c.text ++ trailing ∧
    (∀ u ∈ trailing, isWhitespace u = true) ∧ Fits maxWidth inside

/- The chunks of a line, of which the graphemes of `leftOut` may stand in none. -/
structure Wrapped (leftOut : Grapheme → Prop) (line : List Grapheme) (maxWidth : Nat) (chunks : List TextChunk) :
    Prop where
  ranges : ∀ c ∈ chunks, c.startIndex ≤ c.endIndex ∧ c.endIndex ≤ lengthOf line
  increasing : chunks.Pairwise fun c d => c.startIndex < d.startIndex ∧ c.endIndex ≤ d.startIndex
  shows : ∀ c ∈ chunks, Shows line maxWidth c
  covers : ∀ before g after, line = before ++ g :: after → ¬ leftOut g → ∃! c, c ∈ chunks ∧ Holds c before g

section
variable {leftOut : Grapheme → Prop} {maxWidth : Nat} {line : List Grapheme} {chunks : List TextChunk}

theorem laid_ranges (laid : Laid leftOut maxWidth line chunks) :
    ∀ c ∈ chunks, c.startIndex < c.endIndex ∧ c.endIndex ≤ lengthOf line := by
  induction laid with
  | start => simp
  | skip laid blank ih =>
    intro c member
    have bounds := ih c member
    rw [lengthOf_append]
    omega
  | chunk laid nonempty keeps spaces fits ih =>
    intro c member
    have positive := lengthOf_pos nonempty
    simp only [List.mem_append, List.mem_singleton] at member
    rcases member with earlier | rfl
    · have bounds := ih c earlier
      rw [lengthOf_append]
      omega
    · simp only [lengthOf_append]
      omega

theorem laid_increasing (laid : Laid leftOut maxWidth line chunks) :
    chunks.Pairwise fun c d => c.startIndex < d.startIndex ∧ c.endIndex ≤ d.startIndex := by
  induction laid with
  | start => exact .nil
  | skip laid blank ih => exact ih
  | chunk laid nonempty keeps spaces fits ih =>
    rw [List.pairwise_append]
    refine ⟨ih,List.pairwise_singleton _ _,?_⟩
    intro c earlier d last
    rw [List.mem_singleton] at last
    have bounds := laid_ranges laid c earlier
    subst last
    exact ⟨bounds.1.trans_le bounds.2,bounds.2⟩

theorem shows_append {c : TextChunk} (shown : Shows line maxWidth c) (more : List Grapheme) :
    Shows (line ++ more) maxWidth c := by
  obtain ⟨before,inside,after,trailing,parts,others⟩ := shown
  exact ⟨before,inside,after ++ more,trailing,by rw [parts, List.append_assoc],others⟩

theorem laid_shows (laid : Laid leftOut maxWidth line chunks) : ∀ c ∈ chunks, Shows line maxWidth c := by
  induction laid with
  | start => simp
  | skip laid blank ih => exact fun c member => shows_append (ih c member) _
  | chunk laid nonempty keeps spaces fits ih =>
    intro c member
    simp only [List.mem_append, List.mem_singleton] at member
    rcases member with earlier | rfl
    · exact shows_append (ih c earlier) _
    · exact ⟨_,_,[],_,(List.append_nil _).symm,rfl,rfl,keeps,spaces,fits⟩

/- A grapheme of a line in two parts stands in one of them. -/
theorem append_stands {front back before after : List Grapheme} {g : Grapheme}
    (parts : front ++ back = before ++ g :: after) :
    (∃ rest, front = before ++ g :: rest) ∨ ∃ inner, before = front ++ inner ∧ back = inner ++ g :: after := by
  rcases List.append_eq_append_iff.mp parts with ⟨inner,ahead,same⟩ | ⟨inner,ahead,same⟩
  · exact .inr ⟨inner,ahead,same⟩
  · cases inner with
    | nil => exact .inr ⟨[],by simpa using ahead.symm,same.symm⟩
    | cons first rest =>
      simp only [List.cons_append, List.cons.injEq] at same
      exact .inl ⟨rest,by rw [ahead, same.1]⟩

theorem laid_holds (laid : Laid leftOut maxWidth line chunks) {before after : List Grapheme} {g : Grapheme}
    (parts : line = before ++ g :: after) (needed : ¬ leftOut g) : ∃ c ∈ chunks, Holds c before g := by
  induction laid generalizing after with
  | start => simp at parts
  | skip laid blank ih =>
    rcases append_stands parts with ⟨rest,front⟩ | ⟨inner,_,last⟩
    · exact ih front
    · exact absurd (blank g (by simp [last])) needed
  | chunk laid nonempty keeps spaces fits ih =>
    rcases append_stands parts with ⟨rest,front⟩ | ⟨inner,ahead,last⟩
    · obtain ⟨c,member,holds⟩ := ih front
      exact ⟨c,List.mem_append_left _ member,holds⟩
    · refine ⟨_,List.mem_append_right _ (List.mem_singleton.mpr rfl),?_⟩
      have length := congrArg lengthOf last
      rw [← List.singleton_append, lengthOf_append, lengthOf_append] at length
      simp only [Holds, ahead, lengthOf_append]
      omega

def Apart (c d : TextChunk) : Prop := c.endIndex ≤ d.startIndex ∨ d.endIndex ≤ c.startIndex

instance : Std.Symm Apart := ⟨fun _ _ => Or.symm⟩

theorem holds_unique (ordered : chunks.Pairwise fun c d => c.startIndex < d.startIndex ∧ c.endIndex ≤ d.startIndex)
    {before : List Grapheme} {g : Grapheme} {c d : TextChunk} (first : c ∈ chunks) (second : d ∈ chunks)
    (inC : Holds c before g) (inD : Holds d before g) : c = d := by
  have positive := text_length_pos g
  unfold Holds at inC inD
  simp only [lengthOf_append, lengthOf_one] at inC inD
  by_contra different
  have loose : chunks.Pairwise Apart := ordered.imp fun both => .inl both.2
  have gap : Apart c d := loose.forall first second different
  unfold Apart at gap
  omega

theorem laid_wrapped (laid : Laid leftOut maxWidth line chunks) : Wrapped leftOut line maxWidth chunks where
  ranges := fun c member => ⟨(laid_ranges laid c member).1.le,(laid_ranges laid c member).2⟩
  increasing := laid_increasing laid
  shows := laid_shows laid
  covers := fun before g after parts needed => by
    obtain ⟨c,member,holds⟩ := laid_holds laid parts needed
    exact ⟨c,⟨member,holds⟩,fun d other => holds_unique (laid_increasing laid) other.1 member other.2 holds⟩

/- A line of nothing but what may be left out is shown as one empty chunk. -/
theorem nothing_wrapped (blank : ∀ g ∈ line, leftOut g) : Wrapped leftOut line maxWidth [⟨[],0,0⟩] where
  ranges := by simp
  increasing := List.pairwise_singleton _ _
  shows := by
    intro c member
    rw [List.mem_singleton] at member
    subst member
    exact ⟨[],[],line,[],rfl,rfl,rfl,rfl,by simp,.inl (Nat.zero_le _)⟩
  covers := fun before g after parts needed => absurd (blank g (by simp [parts])) needed

end

theorem laid_blank {leftOut : Grapheme → Prop} {maxWidth : Nat} {line : List Grapheme}
    (laid : Laid leftOut maxWidth line []) : ∀ g ∈ line, leftOut g := by
  intro g member
  obtain ⟨before,after,parts⟩ := List.append_of_mem member
  by_contra needed
  obtain ⟨c,none,_⟩ := laid_holds laid parts needed
  simp at none

theorem wordWrapLine_wrapped (line : List Grapheme) (maxWidth : Nat) (positive : 0 < maxWidth) :
    Wrapped Blank line maxWidth (wordWrapLine line maxWidth) := by
  unfold wordWrapLine
  split
  next degenerate =>
    have empty : line = [] := degenerate.resolve_right (by omega)
    exact nothing_wrapped (by simp [empty])
  next proper =>
    split
    next narrow =>
      have whole := @laid_whole Blank _ _ _ _ .start (fun empty => proper (.inl empty)) (.inl narrow)
      exact laid_wrapped whole
    next _ =>
      obtain ⟨before,placed⟩ := @placeTokens maxWidth _ _ (tokensOf_cut line)
      generalize (tokensOf line).foldl (placeToken maxWidth) ⟨[],[],0,0,true⟩ = s at placed
      have laid : Laid Blank maxWidth line (if s.currentChunk = [] then s.chunks
          else s.chunks ++ [⟨textOf s.currentChunk,s.chunkStartIndex,lengthOf line⟩]) := by
        split
        next empty =>
          have all : line = before := by simpa [empty] using placed.parts
          exact all ▸ placed.laid
        next open' =>
          have pushed := laid_whole placed.laid open' placed.fits
          rw [← placed.parts, ← placed.starts] at pushed
          exact pushed
      simp only
      generalize (if s.currentChunk = [] then s.chunks
          else s.chunks ++ [⟨textOf s.currentChunk,s.chunkStartIndex,lengthOf line⟩]) = chunks at laid
      split
      next none =>
        rw [none] at laid
        exact nothing_wrapped (laid_blank laid)
      next _ => exact laid_wrapped laid

def cell (c : CodeUnit) (width : Nat) : Grapheme := ⟨[c],width,List.cons_ne_nil _ _⟩

def blanks (count : Nat) : List Grapheme := List.replicate count (cell space 1)

/- A byte order mark is no whitespace to the words of a line, and `trimEnd` removes it. -/
def markedLine : List Grapheme :=
  List.replicate 4 (cell 97 1) ++ blanks 2 ++ cell 0xFEFF 0 :: blanks 3 ++ List.replicate 4 (cell 98 1)

/- With U+0085 it is the other way round. -/
def nextLine : List Grapheme := cell 0x85 0 :: List.replicate 5 (cell 98 1)

theorem markedLine_wrapped : 0 < 4 ∧ Wrapped Blank markedLine 4 (wordWrapLine markedLine 4) :=
  ⟨by decide,wordWrapLine_wrapped markedLine 4 (by decide)⟩

/- Neither notion of whitespace covers all that the chunks leave out. -/
theorem marks_left_out :
    ¬ Wrapped (fun g => isNavWhitespace g = true) markedLine 4 (wordWrapLine markedLine 4) ∧
      ¬ Wrapped (fun g => ∀ c ∈ g.text, isWhitespace c = true) nextLine 4 (wordWrapLine nextLine 4) := by
  have marked : wordWrapLine markedLine 4 =
      [⟨List.replicate 4 97,0,4⟩, ⟨List.replicate 4 98,10,14⟩] := by decide +kernel
  have next : wordWrapLine nextLine 4 = [⟨List.replicate 4 98,1,5⟩, ⟨[98],5,6⟩] := by decide +kernel
  rw [marked, next]
  constructor
  · intro wrapped
    obtain ⟨c,⟨member,holds⟩,_⟩ := wrapped.covers (List.replicate 4 (cell 97 1) ++ blanks 2) (cell 0xFEFF 0)
      (blanks 3 ++ List.replicate 4 (cell 98 1)) rfl (by decide)
    simp only [List.mem_cons, List.not_mem_nil, or_false] at member
    rcases member with rfl | rfl <;> revert holds <;> unfold Holds <;> decide
  · intro wrapped
    obtain ⟨c,⟨member,holds⟩,_⟩ := wrapped.covers [] (cell 0x85 0) (List.replicate 5 (cell 98 1)) rfl
      fun blank => absurd (blank 0x85 List.mem_cons_self) (by decide)
    simp only [List.mem_cons, List.not_mem_nil, or_false] at member
    rcases member with rfl | rfl <;> revert holds <;> unfold Holds <;> decide

end WordWrap
