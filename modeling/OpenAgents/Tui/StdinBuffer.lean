import OpenAgents.Lib.BacktrackingRegex
import OpenAgents.Lib.HeldScanner
import OpenAgents.Lib.TextReplace

/- The buffer in front of the terminal input: it cuts what arrives in chunks into key and escape sequences,
   and hands on bracketed pastes in one piece. The timer that flushes an incomplete sequence is left out. -/
namespace StdinBuffer
open JsText BacktrackingRegex HeldScanner TextReplace

def esc : CodeUnit := 0x1b
def bracketedPasteStart : JsString := esc :: js "[200~"
def bracketedPasteEnd : JsString := esc :: js "[201~"

inductive Completeness where
  | complete
  | incomplete
  | notEscape
  deriving DecidableEq

def digit : Regex := .set isDigit
def semicolon : CodeUnit := 59

/- `^<\d+;\d+;\d+[Mm]$` -/
def sgrMouse : Regex :=
  concat [.literal (js "<"), plus digit, one semicolon, plus digit, one semicolon, plus digit, anyOf (js "Mm"), .endOfInput]

def whenever (condition : Bool) : Completeness := if condition then .complete else .incomplete

def isCompleteCsiSequence (data : JsString) : Completeness :=
  if !startsWith data (esc :: js "[") then .complete
  else if data.length < 3 then .incomplete
  else
    let payload := data.drop 2
    match payload.getLast? with
    | none => .incomplete
    | some lastChar =>
        if 0x40 ≤ lastChar ∧ lastChar ≤ 0x7e then
          if startsWith payload (js "<") then
            if test sgrMouse payload then .complete
            else if lastChar = 77 ∨ lastChar = 109 then
              let parts := (payload.drop 1).dropLast.splitOn semicolon
              whenever (parts.length = 3 && parts.all fun part => !part.isEmpty && part.all isDigit)
            else .incomplete
          else .complete
        else .incomplete

def isCompleteOscSequence (data : JsString) : Completeness :=
  if !startsWith data (esc :: js "]") then .complete
  else whenever ((esc :: js "\\").isSuffixOf data || [7].isSuffixOf data)

def isCompleteDcsSequence (data : JsString) : Completeness :=
  if !startsWith data (esc :: js "P") then .complete else whenever ((esc :: js "\\").isSuffixOf data)

def isCompleteApcSequence (data : JsString) : Completeness :=
  if !startsWith data (esc :: js "_") then .complete else whenever ((esc :: js "\\").isSuffixOf data)

def isCompleteSequence : JsString → Completeness
  | [] => .notEscape
  | c :: afterEsc =>
      if c ≠ esc then .notEscape
      else if afterEsc.isEmpty then .incomplete
      else if startsWith afterEsc (js "[") then
        if startsWith afterEsc (js "[M") then whenever (6 ≤ (c :: afterEsc).length) else isCompleteCsiSequence (c :: afterEsc)
      else if startsWith afterEsc (js "]") then isCompleteOscSequence (c :: afterEsc)
      else if startsWith afterEsc (js "P") then isCompleteDcsSequence (c :: afterEsc)
      else if startsWith afterEsc (js "_") then isCompleteApcSequence (c :: afterEsc)
      else if startsWith afterEsc (js "O") then whenever (2 ≤ afterEsc.length)
      else if startsWith afterEsc [esc] then
        if afterEsc[1]? = some 0x5b ∨ afterEsc[1]? = some 0x4f then isCompleteSequence afterEsc else .complete
      else .complete

/- The least end at which the sequence that starts here is not incomplete. -/
def sequenceEnd (remaining : JsString) : Option Nat :=
  (List.range' 1 remaining.length).find? fun seqEnd => isCompleteSequence (remaining.take seqEnd) ≠ .incomplete

/- The sequence at the front, or nothing when it needs more data. -/
def nextSequence (_ : Unit) (remaining : JsString) : Option (Taken Unit JsString) :=
  if startsWith remaining [esc] then (sequenceEnd remaining).map fun seqEnd => ⟨seqEnd,(),remaining.take seqEnd⟩
  else some ⟨1,(),remaining.take 1⟩

/- The outputs are the sequences; what is held is the remainder. -/
def extractCompleteSequences (buffer : JsString) : Scan CodeUnit Unit JsString := scan nextSequence () buffer

def parseInt (digits : JsString) : Nat := digits.foldl (fun n c => n * 10 + (c.toNat - 48)) 0

/- `(?::\d*)?(?::\d+)?u$` -/
def kittyTail : Regex :=
  concat [.optional (.seq (one 58) (.star digit)), .optional (.seq (one 58) (plus digit)), one 117, .endOfInput]

def parseUnmodifiedKittyPrintableCodepoint (sequence : JsString) : Option Nat :=
  let digits := (sequence.drop 2).takeWhile isDigit
  if startsWith sequence (esc :: js "[") && !digits.isEmpty && test kittyTail ((sequence.drop 2).dropWhile isDigit) then
    if 32 ≤ parseInt digits then some (parseInt digits) else none
  else none

inductive Event where
  | data (sequence : JsString)
  | paste (content : JsString)
  deriving DecidableEq

structure State where
  buffer : JsString
  pasteMode : Bool
  pasteBuffer : JsString
  pendingKittyPrintableCodepoint : Option Nat
  deriving DecidableEq

def start : State := ⟨[],false,[],none⟩

def rawCodepoint : JsString → Option Nat
  | [c] => some c.toNat
  | _ => none

/- A plain character that repeats the key reported before it is dropped. -/
def emitDataSequence (pending : Option Nat) (sequence : JsString) : List Event × Option Nat :=
  if rawCodepoint sequence ≠ none ∧ rawCodepoint sequence = pending then ([], none)
  else ([.data sequence], parseUnmodifiedKittyPrintableCodepoint sequence)

def emitAll : Option Nat → List JsString → List Event × Option Nat
  | pending, [] => ([], pending)
  | pending, sequence :: rest =>
      let (event, next) := emitDataSequence pending sequence
      let (later, last) := emitAll next rest
      (event ++ later, last)

/- What stands before the end of the paste and behind it. -/
def splitPaste (pasteBuffer : JsString) : Option (JsString × JsString) :=
  (firstAt bracketedPasteEnd pasteBuffer).map fun endIndex =>
    (pasteBuffer.take endIndex, pasteBuffer.drop (endIndex + bracketedPasteEnd.length))

theorem splitPaste_shorter {pasteBuffer content remaining : JsString} (found : splitPaste pasteBuffer = some (content, remaining)) :
    remaining.length < pasteBuffer.length := by
  obtain ⟨endIndex,first,same⟩ := Option.map_eq_some_iff.mp found
  obtain ⟨_,room,_⟩ := firstAt_some first
  have long : bracketedPasteEnd.length = 6 := by decide
  cases same
  rw [List.length_drop]
  omega

mutual

def process (s : State) (str : JsString) : List Event × State :=
  if str.isEmpty && s.buffer.isEmpty then
    let (events, pending) := emitDataSequence s.pendingKittyPrintableCodepoint []
    (events, { s with pendingKittyPrintableCodepoint := pending })
  else
    let buffer := s.buffer ++ str
    if s.pasteMode then readPaste s.pendingKittyPrintableCodepoint (s.pasteBuffer ++ buffer)
    else
      match firstAt bracketedPasteStart buffer with
      | some startIndex =>
          -- What the sequences before the paste leave is not looked at again.
          let before := if 0 < startIndex then (extractCompleteSequences (buffer.take startIndex)).outputs else []
          let (events, _) := emitAll s.pendingKittyPrintableCodepoint before
          let (later, after) := readPaste none (buffer.drop (startIndex + bracketedPasteStart.length))
          (events ++ later, after)
      | none =>
          let result := extractCompleteSequences buffer
          let (events, pending) := emitAll s.pendingKittyPrintableCodepoint result.outputs
          (events, ⟨result.rest,false,s.pasteBuffer,pending⟩)
termination_by (s.pasteBuffer.length + s.buffer.length + str.length, 1)
decreasing_by
  · exact Prod.Lex.right' _ (by simp only [List.length_append]; omega) (by decide)
  · exact Prod.Lex.right' _ (by simp only [List.length_drop, List.length_append]; omega) (by decide)

/- In paste mode. -/
def readPaste (pending : Option Nat) (pasteBuffer : JsString) : List Event × State :=
  match found : splitPaste pasteBuffer with
  | none => ([], ⟨[],true,pasteBuffer,pending⟩)
  | some (content, remaining) =>
      if remaining.isEmpty then ([.paste content], start)
      else
        let (later, after) := process start remaining
        (.paste content :: later, after)
termination_by (pasteBuffer.length, 0)
decreasing_by
  have shorter := splitPaste_shorter found
  refine Prod.Lex.left _ _ ?_
  simp only [start, List.length_nil]
  omega

end

end StdinBuffer

/- The sequences that a buffer is cut into. Where a sequence ends is decided by what stands before its end,
   so more data behind changes nothing that is already cut. -/
namespace StdinBuffer
open JsText BacktrackingRegex HeldScanner TextReplace

variable {s : JsString} {n : Nat} {m : Unit}

theorem begins_iff : startsWith s [esc] = true ↔ ∃ rest, s = esc :: rest := by
  rw [startsWith, List.isPrefixOf_iff_prefix]
  constructor
  · intro ⟨rest,same⟩
    exact ⟨rest,same.symm⟩
  · intro ⟨rest,same⟩
    exact ⟨rest,same.symm⟩

theorem whenever_decides (condition : Bool) : whenever condition ≠ .notEscape := by
  cases condition <;> decide

theorem csi_decides (data : JsString) : isCompleteCsiSequence data ≠ .notEscape := by
  rw [isCompleteCsiSequence]
  split
  · decide
  · split
    · decide
    · dsimp only
      split
      · decide
      · split
        · split
          · split
            · decide
            · split
              · exact whenever_decides _
              · decide
          · decide
        · decide

/-- A text that begins with the escape character is complete or not. -/
theorem escape_decides (afterEsc : JsString) : isCompleteSequence (esc :: afterEsc) ≠ .notEscape := by
  induction afterEsc with
  | nil => decide
  | cons c rest ih =>
    rw [isCompleteSequence, if_neg (by simp), if_neg (by simp)]
    split
    · split
      · exact whenever_decides _
      · exact csi_decides _
    · split
      · rw [isCompleteOscSequence]
        split
        · decide
        · exact whenever_decides _
      · split
        · rw [isCompleteDcsSequence]
          split
          · decide
          · exact whenever_decides _
        · split
          · rw [isCompleteApcSequence]
            split
            · decide
            · exact whenever_decides _
          · split
            · exact whenever_decides _
            · split
              · rename_i inner
                split
                · obtain ⟨rest',same⟩ := begins_iff.mp inner
                  cases same
                  exact ih
                · decide
              · decide

/-- Only a text with the escape character in front is ever complete. -/
theorem complete_escape (complete : isCompleteSequence s = .complete) : ∃ rest, s = esc :: rest := by
  cases s with
  | nil => contradiction
  | cons c rest =>
    by_cases same : c = esc
    · exact ⟨rest,by rw [same]⟩
    · rw [isCompleteSequence, if_pos same] at complete
      contradiction

/-- What a sequence end is: complete there and incomplete before. -/
theorem sequenceEnd_iff {rest : JsString} : sequenceEnd (esc :: rest) = some n ↔
    0 < n ∧ n ≤ (esc :: rest).length ∧ isCompleteSequence ((esc :: rest).take n) = .complete ∧
      ∀ k, 0 < k → k < n → isCompleteSequence ((esc :: rest).take k) = .incomplete := by
  have decides : ∀ k, 0 < k → isCompleteSequence ((esc :: rest).take k) ≠ .notEscape := by
    intro k positive
    obtain ⟨k',rfl⟩ : ∃ k', k = k' + 1 := ⟨k - 1,by omega⟩
    exact escape_decides _
  rw [sequenceEnd, List.find?_range'_eq_some]
  constructor
  · intro ⟨done,inside,earlier⟩
    obtain ⟨low,high⟩ := List.mem_range'_1.mp inside
    refine ⟨low,by omega,?_,?_⟩
    · have here := decides n low
      cases status : isCompleteSequence ((esc :: rest).take n) with
      | complete => rfl
      | incomplete => simp [status] at done
      | notEscape => exact absurd status here
    · intro k low high
      simpa using earlier k (by omega) high
  · intro ⟨positive,room,done,earlier⟩
    refine ⟨by simp [done],?_,?_⟩
    · simp only [List.mem_range'_1]
      omega
    · intro k low high
      simpa using earlier k (by omega) high

theorem sequenceEnd_append (begins : startsWith s [esc] = true) (found : sequenceEnd s = some n) (behind : JsString) : sequenceEnd (s ++ behind) = some n := by
  obtain ⟨rest,rfl⟩ := begins_iff.mp begins
  obtain ⟨positive,room,done,earlier⟩ := sequenceEnd_iff.mp found
  have same : ∀ k, k ≤ n → (esc :: (rest ++ behind)).take k = (esc :: rest).take k := by
    intro k small
    exact @List.take_append_of_le_length _ (esc :: rest) behind _ (by omega)
  rw [List.cons_append, sequenceEnd_iff]
  refine ⟨positive,?_,?_,?_⟩
  · rw [List.length_cons, List.length_append]
    rw [List.length_cons] at room
    omega
  · rw [same n (Nat.le_refl n)]
    exact done
  · intro k low high
    rw [same k (by omega)]
    exact earlier k low high

theorem nextSequence_progress : Progress nextSequence := by
  intro m s taken nonempty decided
  rw [nextSequence] at decided
  split at decided
  · rename_i begins
    obtain ⟨rest,rfl⟩ := begins_iff.mp begins
    obtain ⟨n,found,same⟩ := Option.map_eq_some_iff.mp decided
    obtain ⟨positive,room,_⟩ := sequenceEnd_iff.mp found
    cases same
    exact ⟨positive,room⟩
  · cases decided
    exact ⟨Nat.one_pos,List.length_pos_iff.mpr nonempty⟩

theorem nextSequence_append {taken : Taken Unit JsString} (nonempty : s ≠ []) (decided : nextSequence () s = some taken)
    (behind : JsString) : nextSequence () (s ++ behind) = some taken := by
  obtain ⟨c,rest,rfl⟩ := List.exists_cons_of_ne_nil nonempty
  have front : startsWith (c :: rest ++ behind) [esc] = startsWith (c :: rest) [esc] := by
    rw [startsWith, startsWith, List.cons_append, List.isPrefixOf, List.isPrefixOf]
    rfl
  rw [nextSequence] at decided ⊢
  rw [front]
  split
  · rename_i begins
    rw [if_pos begins] at decided
    obtain ⟨n,found,same⟩ := Option.map_eq_some_iff.mp decided
    have inside := sequenceEnd_append begins found behind
    obtain ⟨tail,is⟩ := begins_iff.mp begins
    rw [is] at found
    have room := (sequenceEnd_iff.mp found).2.1
    rw [← is] at room
    rw [inside, Option.map_some, List.take_append_of_le_length room, ← same]
  · rename_i plain
    rw [if_neg plain] at decided
    rw [← decided]
    rfl

theorem extract_scans (s : JsString) : Scans nextSequence () s (extractCompleteSequences s) :=
  scan_scans nextSequence_progress () s

/-- The cut goes on from where it was held. -/
theorem extract_append (before behind : JsString) :
    extractCompleteSequences (before ++ behind) =
      { extractCompleteSequences ((extractCompleteSequences before).rest ++ behind) with
        outputs := (extractCompleteSequences before).outputs ++
          (extractCompleteSequences ((extractCompleteSequences before).rest ++ behind)).outputs } := by
  have stable : StableAt nextSequence () before behind := by
    intro n s visited taken decided
    exact nextSequence_append visited.suffix.2 decided behind
  exact (extract_scans _).unique ((extract_scans before).append nextSequence_progress stable (extract_scans _))

theorem extract_nil : extractCompleteSequences [] = ⟨(),[],[]⟩ := rfl

/-- Nothing is lost in the cut, and what is held begins with the escape character. -/
theorem scans_flatten {one : Scan CodeUnit Unit JsString} (scanned : Scans nextSequence m s one) :
    one.outputs.flatten ++ one.rest = s ∧ (one.rest ≠ [] → ∃ tail, one.rest = esc :: tail) := by
  induction scanned with
  | empty => exact ⟨rfl,fun some' => absurd rfl some'⟩
  | hold m s held =>
    refine ⟨rfl,fun _ => begins_iff.mp ?_⟩
    rw [nextSequence] at held
    split at held
    · assumption
    · contradiction
  | take m s taken after nonempty decided rest ih =>
    have size : taken.output = s.take taken.size := by
      rw [nextSequence] at decided
      split at decided
      · obtain ⟨n,_,same⟩ := Option.map_eq_some_iff.mp decided
        rw [← same]
      · cases decided
        rfl
    refine ⟨?_,ih.2⟩
    rw [List.flatten_cons, List.append_assoc, ih.1, size, List.take_append_drop]

/-- A text of characters and of escape sequences, each of these complete at its end and not before. -/
inductive WholeSequences : JsString → Prop where
  | nil : WholeSequences []
  | character {c : CodeUnit} {rest : JsString} (plain : c ≠ esc) (whole : WholeSequences rest) : WholeSequences (c :: rest)
  | sequence {sequence rest : JsString} (complete : isCompleteSequence sequence = .complete)
      (first : ∀ n, 0 < n → n < sequence.length → isCompleteSequence (sequence.take n) = .incomplete)
      (whole : WholeSequences rest) : WholeSequences (sequence ++ rest)

theorem whole_of_scans {one : Scan CodeUnit Unit JsString} (scanned : Scans nextSequence m s one) (all : one.rest = []) : WholeSequences s := by
  induction scanned with
  | empty => exact .nil
  | hold m s held =>
    cases all
    exact .nil
  | take m s taken after nonempty decided rest ih =>
    have later := ih all
    rw [nextSequence] at decided
    split at decided
    · rename_i begins
      obtain ⟨tail,rfl⟩ := begins_iff.mp begins
      obtain ⟨n,found,same⟩ := Option.map_eq_some_iff.mp decided
      obtain ⟨positive,room,done,earlier⟩ := sequenceEnd_iff.mp found
      cases same
      rw [← List.take_append_drop n (esc :: tail)]
      refine .sequence done ?_ later
      intro k low high
      rw [List.length_take, Nat.min_eq_left room] at high
      rw [List.take_take, Nat.min_eq_left (Nat.le_of_lt high)]
      exact earlier k low high
    · rename_i other
      obtain ⟨c,tail,rfl⟩ := List.exists_cons_of_ne_nil nonempty
      cases decided
      refine .character ?_ later
      rintro rfl
      exact other (begins_iff.mpr ⟨tail,rfl⟩)

theorem nextSequence_whole {sequence : JsString} (complete : isCompleteSequence sequence = .complete)
    (first : ∀ n, 0 < n → n < sequence.length → isCompleteSequence (sequence.take n) = .incomplete) (rest : JsString) :
    nextSequence () (sequence ++ rest) = some ⟨sequence.length,(),sequence⟩ := by
  obtain ⟨tail,rfl⟩ := complete_escape complete
  have found : sequenceEnd (esc :: tail) = some (esc :: tail).length :=
    sequenceEnd_iff.mpr ⟨Nat.succ_pos _,Nat.le_refl _,by rw [List.take_length]; exact complete,first⟩
  have begins : startsWith (esc :: tail) [esc] = true := begins_iff.mpr ⟨tail,rfl⟩
  refine nextSequence_append (List.cons_ne_nil _ _) ?_ rest
  rw [nextSequence, if_pos begins, found, Option.map_some, List.take_length]

/-- Such a text is cut without a rest. -/
theorem whole_iff : WholeSequences s ↔ (extractCompleteSequences s).rest = [] := by
  constructor
  · intro whole
    have scanned : ∃ outputs, Scans nextSequence () s ⟨(),[],outputs⟩ := by
      induction whole with
      | nil => exact ⟨[],.empty ()⟩
      | @character c rest plain _ ih =>
        obtain ⟨outputs,later⟩ := ih
        have decided : nextSequence () (c :: rest) = some ⟨1,(),[c]⟩ := by
          rw [nextSequence, if_neg]
          · rfl
          · intro begins
            obtain ⟨_,same⟩ := begins_iff.mp begins
            cases same
            exact plain rfl
        exact ⟨_,.take () _ _ _ (List.cons_ne_nil c rest) decided later⟩
      | @sequence sequence rest complete first _ ih =>
        obtain ⟨outputs,later⟩ := ih
        obtain ⟨tail,is⟩ := complete_escape complete
        have nonempty : sequence ++ rest ≠ [] := by
          rw [is]
          exact List.cons_ne_nil _ _
        have goes : Scans nextSequence () ((sequence ++ rest).drop sequence.length) ⟨(),[],outputs⟩ := by
          rw [List.drop_left]
          exact later
        exact ⟨_,.take () _ _ _ nonempty (nextSequence_whole complete first rest) goes⟩
    obtain ⟨outputs,scanned⟩ := scanned
    rw [(extract_scans s).unique scanned]
  · exact whole_of_scans (extract_scans s)

theorem extract_whole (whole : WholeSequences s) (behind : JsString) :
    extractCompleteSequences (s ++ behind) =
      { extractCompleteSequences behind with
        outputs := (extractCompleteSequences s).outputs ++ (extractCompleteSequences behind).outputs } := by
  rw [extract_append, whole_iff.mp whole, List.nil_append]

/-- What has come of a paste marker is held back. -/
theorem marker_held {k : Nat} (short : k < bracketedPasteStart.length) :
    extractCompleteSequences (bracketedPasteStart.take k) = ⟨(),bracketedPasteStart.take k,[]⟩ := by
  have long : bracketedPasteStart.length = 6 := by decide
  have each : ∀ k : Fin 6, (extractCompleteSequences (bracketedPasteStart.take k.1)).rest = bracketedPasteStart.take k.1 ∧
      (extractCompleteSequences (bracketedPasteStart.take k.1)).outputs = [] := by decide +kernel
  obtain ⟨held,none'⟩ := each ⟨k,by omega⟩
  cases cut : extractCompleteSequences (bracketedPasteStart.take k) with
  | mk mode rest outputs =>
    rw [cut] at held none'
    rw [← held, ← none']

end StdinBuffer
