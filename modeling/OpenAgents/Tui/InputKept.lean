import OpenAgents.Tui.StdinBuffer
import OpenAgents.Lib.Runs
import Mathlib.Algebra.GroupWithZero.Nat

/- The input behind the events: what the buffer has emitted and what it still holds spell what it was given,
   however that was cut, when every paste begins where a sequence ends. -/
namespace StdinBuffer
open JsText BacktrackingRegex HeldScanner TextReplace ChunkedRuns

/- What is held of the input. -/
def remainingInput (s : State) : JsString := if s.pasteMode then bracketedPasteStart ++ s.pasteBuffer else s.buffer

/-- Events that stand for a text, behind an event that has reported a key: a plain character that repeats
    this key may be missing. -/
inductive Spelled : Option Nat → List Event → JsString → Prop where
  | nil (last : Option Nat) : Spelled last [] []
  | data {last : Option Nat} {events : List Event} {text : JsString} (sequence : JsString)
      (later : Spelled (parseUnmodifiedKittyPrintableCodepoint sequence) events text) :
      Spelled last (.data sequence :: events) (sequence ++ text)
  | suppressed {events : List Event} {text : JsString} (c : CodeUnit) (later : Spelled none events text) :
      Spelled (some c.toNat) events (c :: text)
  | paste {last : Option Nat} {events : List Event} {text : JsString} (content : JsString) (later : Spelled none events text) :
      Spelled last (.paste content :: events) (bracketedPasteStart ++ content ++ bracketedPasteEnd ++ text)

/-- Text in which every paste begins where a sequence ends. -/
inductive Clean : JsString → Prop where
  | plain {s : JsString} (noPaste : firstAt bracketedPasteStart s = none) : Clean s
  | opened {s : JsString} {i : Nat} (first : firstAt bracketedPasteStart s = some i) (whole : WholeSequences (s.take i))
      (pending : splitPaste (s.drop (i + bracketedPasteStart.length)) = none) : Clean s
  | closed {s content rest : JsString} {i : Nat} (first : firstAt bracketedPasteStart s = some i)
      (whole : WholeSequences (s.take i))
      (split : splitPaste (s.drop (i + bracketedPasteStart.length)) = some (content, rest)) (clean : Clean rest) : Clean s

def feed (chunks : List JsString) : List Event × State := feedAll process start chunks

/- The text as its only part; the empty text has none. -/
def inOnePiece (s : JsString) : List JsString := if s.isEmpty then [] else [s]

/-- Every partition of the text gives the same events, and these spell the text up to what is held. -/
def InputKept (s : JsString) : Prop :=
  ∀ chunks : List JsString, [] ∉ chunks → chunks.flatten = s → (feed chunks).1 = (feed (inOnePiece s)).1 ∧
    ∃ text, Spelled none (feed chunks).1 text ∧ text ++ remainingInput (feed chunks).2 = s

section search
variable {token first second : JsString} {i : Nat}

theorem firstAt_append (some' : token ≠ []) (found : firstAt token first = some i) (second : JsString) :
    firstAt token (first ++ second) = some i := by
  obtain ⟨begins,room,least⟩ := firstAt_some found
  have positive := List.length_pos_iff.mpr some'
  refine firstAt_unique ?_ ?_
  · rw [List.drop_append_of_le_length (by omega)]
    exact begins.trans (List.prefix_append _ _)
  · intro j less early
    rw [List.drop_append_of_le_length (by omega)] at early
    refine least j less (List.prefix_of_prefix_length_le early (List.prefix_append _ _) ?_)
    rw [List.length_drop]
    omega

theorem firstAt_front_none (absent : firstAt token (first ++ second) = none) : firstAt token first = none := by
  rw [firstAt_none_iff] at absent ⊢
  exact fun occurs => absent (occurs.trans (List.prefix_append first second).isInfix)

/-- Looked for from a place on, the first occurrence behind that place. -/
theorem firstAt_drop {text : JsString} {n : Nat} (found : firstAt token text = some i) (before : n ≤ i) :
    firstAt token (text.drop n) = some (i - n) := by
  obtain ⟨begins,_,least⟩ := firstAt_some found
  refine firstAt_unique ?_ ?_
  · rw [List.drop_drop, Nat.add_sub_cancel' before]
    exact begins
  · intro j less early
    rw [List.drop_drop] at early
    exact least (n + j) (by omega) early

end search

theorem start_length : bracketedPasteStart.length = 6 := by decide

theorem splitPaste_append {first content rest : JsString} (found : splitPaste first = some (content, rest)) (second : JsString) :
    splitPaste (first ++ second) = some (content, rest ++ second) := by
  obtain ⟨i,here,same⟩ := Option.map_eq_some_iff.mp found
  obtain ⟨_,room,_⟩ := firstAt_some here
  cases same
  rw [splitPaste, firstAt_append (by decide) here, Option.map_some, List.take_append_of_le_length (by omega),
    List.drop_append_of_le_length room]

theorem splitPaste_text {pasteBuffer content rest : JsString} (found : splitPaste pasteBuffer = some (content, rest)) :
    pasteBuffer = content ++ bracketedPasteEnd ++ rest := by
  obtain ⟨i,here,same⟩ := Option.map_eq_some_iff.mp found
  obtain ⟨begins,_,_⟩ := firstAt_some here
  have marker := List.prefix_iff_eq_take.mp begins
  cases same
  conv_lhs => rw [← List.take_append_drop i pasteBuffer, ← List.take_append_drop bracketedPasteEnd.length (pasteBuffer.drop i)]
  rw [← marker, List.drop_drop, List.append_assoc]

variable {s pasteBuffer : JsString} {chunks : List JsString}

theorem marker_text {i : Nat} (found : firstAt bracketedPasteStart s = some i) :
    s = s.take i ++ bracketedPasteStart ++ s.drop (i + bracketedPasteStart.length) := by
  obtain ⟨begins,_,_⟩ := firstAt_some found
  have marker := List.prefix_iff_eq_take.mp begins
  conv_lhs => rw [← List.take_append_drop i s, ← List.take_append_drop bracketedPasteStart.length (s.drop i)]
  rw [← marker, List.drop_drop, List.append_assoc]

/-- What a cut text is clean of, its front is. -/
theorem Clean.front {first second : JsString} (clean : Clean (first ++ second)) : Clean first := by
  generalize same : first ++ second = whole at clean
  induction clean generalizing first with
  | plain noPaste =>
    subst same
    exact .plain (firstAt_front_none noPaste)
  | @opened s i here whole pending =>
    subst same
    cases found : firstAt bracketedPasteStart first with
    | none => exact .plain found
    | some k =>
      have room := (firstAt_some found).2.1
      obtain rfl : k = i := Option.some.inj ((firstAt_append (by decide) found second).symm.trans here)
      rw [List.take_append_of_le_length (by omega)] at whole
      rw [List.drop_append_of_le_length room] at pending
      refine .opened found whole ?_
      cases inside : splitPaste (first.drop (k + bracketedPasteStart.length)) with
      | none => rfl
      | some pair => simp [splitPaste_append inside] at pending
  | @closed s content rest i here whole split clean ih =>
    subst same
    cases found : firstAt bracketedPasteStart first with
    | none => exact .plain found
    | some k =>
      have room := (firstAt_some found).2.1
      obtain rfl : k = i := Option.some.inj ((firstAt_append (by decide) found second).symm.trans here)
      rw [List.take_append_of_le_length (by omega)] at whole
      rw [List.drop_append_of_le_length room] at split
      cases inside : splitPaste (first.drop (k + bracketedPasteStart.length)) with
      | none => exact .opened found whole inside
      | some pair =>
        rw [splitPaste_append inside, Option.some.injEq, Prod.mk.injEq] at split
        exact .closed found whole inside (ih split.2)

/- Emission -/

theorem emitAll_append (pending : Option Nat) (front back : List JsString) :
    emitAll pending (front ++ back) =
      ((emitAll pending front).1 ++ (emitAll (emitAll pending front).2 back).1, (emitAll (emitAll pending front).2 back).2) := by
  induction front generalizing pending with
  | nil => rfl
  | cons sequence rest ih =>
    simp only [List.cons_append, emitAll, ih, List.append_assoc]

theorem emitted_spelled {pending : Option Nat} {sequences : List JsString} {events : List Event} {text : JsString}
    (later : Spelled (emitAll pending sequences).2 events text) :
    Spelled pending ((emitAll pending sequences).1 ++ events) (sequences.flatten ++ text) := by
  induction sequences generalizing pending with
  | nil => exact later
  | cons sequence rest ih =>
    rw [emitAll] at later ⊢
    dsimp only at later ⊢
    rw [List.append_assoc, List.flatten_cons, List.append_assoc]
    have tail := ih later
    by_cases repeats : rawCodepoint sequence ≠ none ∧ rawCodepoint sequence = pending
    · rw [emitDataSequence, if_pos repeats] at tail ⊢
      obtain ⟨c,rfl⟩ : ∃ c, sequence = [c] := by
        match sequence, repeats.1 with
        | [c], _ => exact ⟨c,rfl⟩
      rw [← repeats.2]
      exact .suppressed c tail
    · rw [emitDataSequence, if_neg repeats] at tail ⊢
      exact .data sequence tail

/- One chunk -/

theorem process_marker {pending : Option Nat} {i : Nat} (found : firstAt bracketedPasteStart s = some i) :
    process ⟨[],false,[],pending⟩ s =
      ((emitAll pending (extractCompleteSequences (s.take i)).outputs).1 ++
        (readPaste none (s.drop (i + bracketedPasteStart.length))).1, (readPaste none (s.drop (i + bracketedPasteStart.length))).2) := by
  have room := (firstAt_some found).2.1
  have nonempty : ¬ (s.isEmpty && ([] : JsString).isEmpty) = true := by
    rw [start_length] at room
    intro empty
    have none' : s = [] := by simpa using empty
    rw [none'] at room
    contradiction
  have before : (if 0 < i then (extractCompleteSequences (s.take i)).outputs else []) =
      (extractCompleteSequences (s.take i)).outputs := by
    split
    · rfl
    · rename_i zero
      rw [Nat.eq_zero_of_not_pos zero, List.take_zero, extract_nil]
  rw [process, if_neg nonempty]
  simp only [List.nil_append]
  rw [if_neg (by decide), found]
  dsimp only
  rw [before]

theorem process_plain {pending : Option Nat} (some' : s ≠ []) (absent : firstAt bracketedPasteStart s = none) :
    process ⟨[],false,[],pending⟩ s =
      ((emitAll pending (extractCompleteSequences s).outputs).1,
        ⟨(extractCompleteSequences s).rest,false,[],(emitAll pending (extractCompleteSequences s).outputs).2⟩) := by
  rw [process, if_neg (by simpa using some')]
  simp only [List.nil_append]
  rw [if_neg (by decide), absent]

/-- What is held counts as if it came with the chunk. -/
theorem process_held {pending : Option Nat} {held s : JsString} (some' : s ≠ []) :
    process ⟨held,false,[],pending⟩ s = process ⟨[],false,[],pending⟩ (held ++ s) := by
  have alone : ¬ (s.isEmpty && held.isEmpty) = true := by simp [some']
  have together : ¬ ((held ++ s).isEmpty && ([] : JsString).isEmpty) = true := by simp [some']
  rw [process, if_neg alone, process, if_neg together]
  simp only [List.nil_append]

theorem process_paste {pending : Option Nat} (some' : s ≠ []) :
    process ⟨[],true,pasteBuffer,pending⟩ s = readPaste pending (pasteBuffer ++ s) := by
  rw [process, if_neg (by simp [some'])]
  rfl

theorem readPaste_open {pending : Option Nat} (opened : splitPaste pasteBuffer = none) :
    readPaste pending pasteBuffer = ([], ⟨[],true,pasteBuffer,pending⟩) := by
  rw [readPaste]
  split
  · rfl
  · rename_i found
    rw [opened] at found
    contradiction

theorem readPaste_closed {pending : Option Nat} {pasteBuffer content rest : JsString}
    (split : splitPaste pasteBuffer = some (content, rest)) :
    readPaste pending pasteBuffer =
      if rest.isEmpty then ([.paste content], start) else (.paste content :: (process start rest).1, (process start rest).2) := by
  rw [readPaste]
  split
  · rename_i found
    rw [split] at found
    contradiction
  · rename_i content' rest' found
    rw [split] at found
    cases found
    rfl

/- Two chunks in a row as one. -/
def Joined (s : State) (first second : JsString) : Prop :=
  process s (first ++ second) =
    ((process s first).1 ++ (process (process s first).2 second).1, (process (process s first).2 second).2)

theorem readPaste_append {pasteBuffer second : JsString} (some' : second ≠ [])
    (joined : ∀ content rest, splitPaste pasteBuffer = some (content, rest) → rest ≠ [] → Joined start rest second) :
    readPaste none (pasteBuffer ++ second) = ((readPaste none pasteBuffer).1 ++ (process (readPaste none pasteBuffer).2 second).1,
      (process (readPaste none pasteBuffer).2 second).2) := by
  cases split : splitPaste pasteBuffer with
  | none =>
    rw [readPaste_open split]
    dsimp only
    rw [process_paste some', List.nil_append]
  | some pair =>
    obtain ⟨content,rest⟩ := pair
    rw [readPaste_closed split, readPaste_closed (splitPaste_append split second)]
    have more : ¬ (rest ++ second).isEmpty = true := by simp [some']
    rw [if_neg more]
    by_cases none' : rest = []
    · rw [none', List.nil_append]
      rfl
    · rw [if_neg (by simpa using none'), joined content rest split none']
      rfl

/-- Before a paste marker the text is cut alike, whether or not the first chunk goes as far. -/
theorem before_marker {first second : JsString} {i : Nat} {cut : Scan CodeUnit Unit JsString}
    (is : extractCompleteSequences first = cut) (absent : firstAt bracketedPasteStart first = none)
    (found : firstAt bracketedPasteStart (first ++ second) = some i) (whole : WholeSequences ((first ++ second).take i)) :
    ∃ n, n ≤ i ∧ cut.rest ++ second = (first ++ second).drop n ∧
      (extractCompleteSequences ((first ++ second).take i)).outputs =
        cut.outputs ++ (extractCompleteSequences ((cut.rest ++ second).take (i - n))).outputs := by
  by_cases inside : i ≤ first.length
  · -- The rest of the first chunk is a beginning of the marker and is held.
    have begins := (firstAt_some found).1
    rw [List.drop_append_of_le_length inside] at begins
    have short : first.length - i < bracketedPasteStart.length := by
      by_contra long
      refine firstAt_none absent i (List.prefix_of_prefix_length_le begins (List.prefix_append _ _) ?_)
      rw [List.length_drop]
      omega
    have held : first.drop i = bracketedPasteStart.take (first.length - i) := by
      have part := List.prefix_of_prefix_length_le (List.prefix_append (first.drop i) second) begins (by
        rw [List.length_drop]
        exact Nat.le_of_lt short)
      rw [← List.length_drop]
      exact List.prefix_iff_eq_take.mp part
    have whole' : WholeSequences (first.take i) := by
      rw [List.take_append_of_le_length inside] at whole
      exact whole
    have same : cut = ⟨(),bracketedPasteStart.take (first.length - i),(extractCompleteSequences (first.take i)).outputs⟩ := by
      have parts := extract_whole whole' (bracketedPasteStart.take (first.length - i))
      rw [marker_held short, List.append_nil, ← held, List.take_append_drop] at parts
      rw [← held, ← is]
      exact parts
    refine ⟨i,Nat.le_refl i,?_,?_⟩
    · rw [same, ← held, List.drop_append_of_le_length inside]
    · rw [same, List.take_append_of_le_length inside, Nat.sub_self, List.take_zero, extract_nil, List.append_nil]
  · obtain ⟨spelled,_⟩ := scans_flatten (extract_scans first)
    rw [is] at spelled
    have long := congrArg List.length spelled
    rw [List.length_append] at long
    refine ⟨cut.outputs.flatten.length,by omega,?_,?_⟩
    · conv_rhs => rw [← spelled, List.append_assoc, List.drop_left]
    · have reach : i - cut.outputs.flatten.length - cut.rest.length = i - first.length := by omega
      rw [List.take_append, List.take_of_length_le (by omega), extract_append, is, List.take_append, reach,
        List.take_of_length_le (by omega : cut.rest.length ≤ i - cut.outputs.flatten.length)]

/-- Where every paste begins at the end of a sequence, the cut between two chunks cannot be seen. -/
theorem process_append {first second : JsString} (some' : first ≠ []) (more : second ≠ []) (clean : Clean (first ++ second)) :
    Joined start first second := by
  induction size : first.length using Nat.strongRecOn generalizing first with
  | ind size' ih =>
    have together : first ++ second ≠ [] := List.append_ne_nil_of_left_ne_nil some' second
    rw [Joined, start]
    cases here : firstAt bracketedPasteStart first with
    | some i =>
      have room := (firstAt_some here).2.1
      have there := firstAt_append (by decide) here second
      rw [process_marker here, process_marker there, List.take_append_of_le_length (by omega),
        List.drop_append_of_le_length room]
      have joined := @readPaste_append (first.drop (i + bracketedPasteStart.length)) second more
      rw [joined, List.append_assoc]
      intro content rest split nonempty
      have shorter := splitPaste_shorter split
      rw [List.length_drop] at shorter
      have inner : Clean (rest ++ second) := by
        cases clean with
        | plain noPaste =>
          rw [noPaste] at there
          contradiction
        | opened first' _ pending =>
          rw [there, Option.some.injEq] at first'
          rw [← first', List.drop_append_of_le_length room, splitPaste_append split] at pending
          contradiction
        | closed first' _ split' clean' =>
          rw [there, Option.some.injEq] at first'
          rw [← first', List.drop_append_of_le_length room, splitPaste_append split, Option.some.injEq, Prod.mk.injEq] at split'
          rw [split'.2]
          exact clean'
      exact ih rest.length (by omega) nonempty inner rfl
    | none =>
      rw [process_plain some' here]
      dsimp only
      rw [process_held more]
      have gathered := extract_append first second
      cases there : firstAt bracketedPasteStart (first ++ second) with
      | none =>
        have later : firstAt bracketedPasteStart ((extractCompleteSequences first).rest ++ second) = none := by
          obtain ⟨spelled,_⟩ := scans_flatten (extract_scans first)
          rw [firstAt_none_iff] at there ⊢
          intro occurs
          apply there
          rw [← spelled, List.append_assoc]
          exact occurs.trans (List.suffix_append _ _).isInfix
        rw [process_plain together there, process_plain (List.append_ne_nil_of_right_ne_nil _ more) later, gathered, emitAll_append]
      | some i =>
        have whole : WholeSequences ((first ++ second).take i) := by
          cases clean with
          | plain noPaste =>
            rw [noPaste] at there
            contradiction
          | opened first' whole _ =>
            rw [there, Option.some.injEq] at first'
            rw [first']
            exact whole
          | closed first' whole _ _ =>
            rw [there, Option.some.injEq] at first'
            rw [first']
            exact whole
        obtain ⟨n,before,dropped,outputs⟩ := before_marker rfl here there whole
        have later := firstAt_drop there before
        rw [← dropped] at later
        have behind : i - n + bracketedPasteStart.length = i + bracketedPasteStart.length - n := by omega
        have reach : ((extractCompleteSequences first).rest ++ second).drop (i - n + bracketedPasteStart.length) =
            (first ++ second).drop (i + bracketedPasteStart.length) := by
          rw [dropped, List.drop_drop, behind, Nat.add_sub_cancel' (by omega)]
        rw [process_marker there, process_marker later, outputs, emitAll_append, reach, List.append_assoc]

/- All chunks -/

/-- A run over chunks goes on from the text before them as one chunk. -/
theorem feedAll_front (parts : [] ∉ chunks) {front : JsString} (some' : front ≠ []) (clean : Clean (front ++ chunks.flatten)) :
    let first := process start front
    let rest := feedAll process first.2 chunks
    (first.1 ++ rest.1, rest.2) = process start (front ++ chunks.flatten) := by
  induction chunks generalizing front with
  | nil => simp [feedAll]
  | cons chunk chunks ih =>
    rw [List.mem_cons, not_or] at parts
    rw [List.flatten_cons, ← List.append_assoc] at clean
    have joined := process_append some' (Ne.symm parts.1) clean.front
    have later := ih parts.2 (List.append_ne_nil_of_left_ne_nil some' chunk) clean
    rw [Joined] at joined
    simp only [joined, List.append_assoc] at later
    simp only [feedAll, List.flatten_cons]
    rw [later]

theorem feed_whole (parts : [] ∉ chunks) (clean : Clean chunks.flatten) :
    feed chunks = feed (inOnePiece chunks.flatten) := by
  cases chunks with
  | nil => rfl
  | cons chunk chunks =>
    rw [List.mem_cons, not_or] at parts
    have later := feedAll_front parts.2 (Ne.symm parts.1) clean
    have some' : ¬ (chunk ++ chunks.flatten).isEmpty = true := by simp [Ne.symm parts.1]
    rw [List.flatten_cons, inOnePiece, if_neg some', feed, feed]
    simp only [feedAll, List.append_nil]
    exact later

/-- A clean text is spelled by its events and what is held. -/
theorem clean_spelled (clean : Clean s) (some' : s ≠ []) :
    ∃ text, Spelled none (process start s).1 text ∧ text ++ remainingInput (process start s).2 = s := by
  induction clean with
  | @plain s noPaste =>
    have spelled := emitted_spelled (.nil (emitAll none (extractCompleteSequences s).outputs).2)
    rw [start, process_plain some' noPaste]
    rw [List.append_nil, List.append_nil] at spelled
    exact ⟨_,spelled,(scans_flatten (extract_scans s)).1⟩
  | @opened s i first whole pending =>
    obtain ⟨spelled,_⟩ := scans_flatten (extract_scans (s.take i))
    rw [whole_iff.mp whole, List.append_nil] at spelled
    have emitted := emitted_spelled (.nil (emitAll none (extractCompleteSequences (s.take i)).outputs).2)
    simp only [List.append_nil, spelled] at emitted
    rw [start, process_marker first, readPaste_open pending]
    refine ⟨s.take i,?_,?_⟩
    · dsimp only
      rw [List.append_nil]
      exact emitted
    · rw [remainingInput, if_pos rfl]
      conv_rhs => rw [marker_text first]
      rw [List.append_assoc]
  | @closed s content rest i first whole split clean ih =>
    obtain ⟨spelled,_⟩ := scans_flatten (extract_scans (s.take i))
    rw [whole_iff.mp whole, List.append_nil] at spelled
    obtain ⟨text,later,all⟩ : ∃ text, (∀ last, Spelled last (readPaste none (s.drop (i + bracketedPasteStart.length))).1
        (bracketedPasteStart ++ content ++ bracketedPasteEnd ++ text)) ∧
        text ++ remainingInput (readPaste none (s.drop (i + bracketedPasteStart.length))).2 = rest := by
      rw [readPaste_closed split]
      by_cases none' : rest = []
      · rw [if_pos (by simp [none']), none']
        exact ⟨[],fun _ => .paste content (.nil none),rfl⟩
      · rw [if_neg (by simp [none'])]
        obtain ⟨text,later,all⟩ := ih none'
        exact ⟨text,fun _ => .paste content later,all⟩
    rw [start, process_marker first]
    refine ⟨_,emitted_spelled (later _),?_⟩
    rw [spelled, List.append_assoc, List.append_assoc (bracketedPasteStart ++ content ++ bracketedPasteEnd), all]
    conv_rhs => rw [marker_text first, splitPaste_text split]
    simp only [List.append_assoc]

/- What is lost -/

/- The escape characters of the input behind an event. -/
def escapesOf : Event → Nat
  | .data sequence => sequence.count esc
  | .paste content => content.count esc + 2

def escapes (events : List Event) : Nat := (events.map escapesOf).sum

def Printable (last : Option Nat) : Prop := ∀ codepoint ∈ last, 32 ≤ codepoint

theorem printable_none : Printable none := by
  intro codepoint mem
  contradiction

theorem kitty_printable (sequence : JsString) : Printable (parseUnmodifiedKittyPrintableCodepoint sequence) := by
  intro codepoint mem
  rw [parseUnmodifiedKittyPrintableCodepoint] at mem
  split at mem
  · split at mem
    · rename_i printable
      cases mem
      exact printable
    · contradiction
  · contradiction

theorem printable_plain {c : CodeUnit} (printable : Printable (some c.toNat)) : c ≠ esc := by
  rintro rfl
  exact absurd (printable _ rfl) (by decide)

/-- No escape character is ever suppressed. -/
theorem spelled_escapes {last : Option Nat} {events : List Event} {text : JsString} (spelled : Spelled last events text)
    (printable : Printable last) : text.count esc = escapes events := by
  have markers : bracketedPasteStart.count esc = 1 ∧ bracketedPasteEnd.count esc = 1 := by decide
  induction spelled with
  | nil => rfl
  | data sequence _ ih =>
    rw [List.count_append, ih (kitty_printable sequence)]
    rfl
  | suppressed c _ ih =>
    rw [List.count_cons_of_ne (printable_plain printable), ih printable_none]
  | paste content _ ih =>
    rw [List.count_append, List.count_append, List.count_append, ih printable_none, markers.1, markers.2, escapes, escapes,
      List.map_cons, List.sum_cons, escapesOf]
    omega

theorem emitAll_escapes {pending : Option Nat} (printable : Printable pending) (sequences : List JsString) :
    escapes (emitAll pending sequences).1 = sequences.flatten.count esc := by
  have spelled := emitted_spelled (.nil (emitAll pending sequences).2)
  rw [List.append_nil, List.append_nil] at spelled
  exact (spelled_escapes spelled printable).symm

/-- A text that is not clean loses an escape character. -/
theorem escapes_lost (some' : s ≠ []) :
    escapes (process start s).1 + (remainingInput (process start s).2).count esc ≤ s.count esc ∧
    (¬ Clean s → escapes (process start s).1 + (remainingInput (process start s).2).count esc < s.count esc) := by
  induction size : s.length using Nat.strongRecOn generalizing s with
  | ind size' ih =>
    cases first : firstAt bracketedPasteStart s with
    | none =>
      have all := congrArg (List.count esc) (scans_flatten (extract_scans s)).1
      rw [List.count_append] at all
      rw [start, process_plain some' first]
      dsimp only
      rw [emitAll_escapes printable_none, remainingInput]
      exact ⟨Nat.le_of_eq all,fun dirty => absurd (.plain first) dirty⟩
    | some i =>
      obtain ⟨spelled,held⟩ := scans_flatten (extract_scans (s.take i))
      have front := congrArg (List.count esc) spelled
      have whole := congrArg (List.count esc) (marker_text first)
      have marker : bracketedPasteStart.count esc = 1 := by decide
      rw [List.count_append, List.count_append, marker] at whole
      rw [List.count_append] at front
      -- What the sequences before the paste leave begins with an escape character.
      have lost : ¬ WholeSequences (s.take i) → 0 < (extractCompleteSequences (s.take i)).rest.count esc := by
        intro partly
        obtain ⟨tail,is⟩ := held (fun none' => partly (whole_iff.mpr none'))
        rw [is, List.count_cons_self]
        exact Nat.succ_pos _
      rw [start, process_marker first]
      dsimp only
      rw [escapes, List.map_append, List.sum_append, ← escapes, ← escapes, emitAll_escapes printable_none]
      cases split : splitPaste (s.drop (i + bracketedPasteStart.length)) with
      | none =>
        rw [readPaste_open split]
        dsimp only
        rw [remainingInput, if_pos rfl, List.count_append, marker]
        dsimp only
        have none' : escapes [] = 0 := rfl
        refine ⟨by omega,fun dirty => ?_⟩
        have gone := lost fun whole' => dirty (.opened first whole' split)
        omega
      | some pair =>
        obtain ⟨content,rest⟩ := pair
        have inside := congrArg (List.count esc) (splitPaste_text split)
        have marker' : bracketedPasteEnd.count esc = 1 := by decide
        rw [List.count_append, List.count_append, marker'] at inside
        rw [readPaste_closed split]
        by_cases none' : rest = []
        · rw [if_pos (by simp [none'])]
          have one : escapes [Event.paste content] = content.count esc + 2 := by simp [escapes, escapesOf]
          have held' : (remainingInput start).count esc = 0 := rfl
          dsimp only
          rw [one, held']
          refine ⟨by omega,fun dirty => ?_⟩
          have gone := lost fun whole' => dirty (.closed first whole' split (none' ▸ .plain rfl))
          omega
        · rw [if_neg (by simp [none'])]
          have shorter := splitPaste_shorter split
          rw [List.length_drop] at shorter
          obtain ⟨kept,later⟩ := ih rest.length (by omega) none' rfl
          have one : escapes (.paste content :: (process start rest).1) = content.count esc + 2 + escapes (process start rest).1 := by
            simp [escapes, escapesOf]
          dsimp only
          rw [one]
          refine ⟨by omega,fun dirty => ?_⟩
          by_cases clean : Clean rest
          · have gone := lost fun whole' => dirty (.closed first whole' split clean)
            omega
          · have more := later clean
            omega

/-- Kept input is clean: of the text in one piece nothing is lost. -/
theorem clean_of_kept (kept : InputKept s) : Clean s := by
  by_contra dirty
  have some' : s ≠ [] := by
    rintro rfl
    exact dirty (.plain rfl)
  obtain ⟨_,text,spelled,all⟩ := kept [s] (by simpa using Ne.symm some') (by simp)
  have whole : feed [s] = process start s := by simp [feed, feedAll]
  rw [whole] at spelled all
  have lost := (escapes_lost some').2 dirty
  have counted := spelled_escapes spelled printable_none
  have same := congrArg (List.count esc) all
  rw [List.count_append] at same
  omega

/-- The input is kept, whatever its chunks, exactly when every paste begins where a sequence ends. -/
theorem input_kept_iff (s : JsString) : InputKept s ↔ Clean s := by
  constructor
  · exact clean_of_kept
  · intro clean chunks parts same
    subst same
    have whole := feed_whole parts clean
    refine ⟨congrArg Prod.fst whole,?_⟩
    rw [whole]
    by_cases some' : chunks.flatten = []
    · rw [some']
      exact ⟨[],.nil none,rfl⟩
    · rw [inOnePiece, if_neg (by simpa using some')]
      have alone : feed [chunks.flatten] = process start chunks.flatten := by simp [feed, feedAll]
      rw [alone]
      exact clean_spelled clean some'

/-- An escape character right before a paste is lost. -/
theorem escape_lost : ¬ InputKept (esc :: bracketedPasteStart ++ js "a" ++ bracketedPasteEnd) := by
  intro kept
  have alone : ¬ WholeSequences [esc] := by
    rw [whole_iff]
    decide +kernel
  have here : firstAt bracketedPasteStart (esc :: bracketedPasteStart ++ js "a" ++ bracketedPasteEnd) = some 1 := by decide +kernel
  cases clean_of_kept kept with
  | plain noPaste =>
    rw [here] at noPaste
    contradiction
  | opened first whole _ =>
    rw [here, Option.some.injEq] at first
    subst first
    exact alone whole
  | closed first whole _ _ =>
    rw [here, Option.some.injEq] at first
    subst first
    exact alone whole

end StdinBuffer
