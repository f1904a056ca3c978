import OpenAgents.Edit.ExactPatch
import OpenAgents.Lib.CutText

/- Replacing a text in a file: its exact occurrences all at once, else what is similar enough, one
   after another, each looked for in the text the last round has left. -/
namespace Edit
open JsText Hashline TextLines TextReplace CutText

structure ReplaceOptions (Score : Type) where
  fuzzy : Bool
  all : Bool
  threshold : Option Score

structure ReplaceResult where
  content : JsString
  count : Nat
  deriving DecidableEq, Repr

def maxOccurrencePreviews : Nat := 5

/- An empty path is no path. -/
def formatOccurrenceMatchError (occurrences : Nat) (occurrencePreviews : List JsString) (path : JsString) : JsString :=
  let moreMsg :=
    if maxOccurrencePreviews < occurrences then
      js " (showing first " ++ decimal maxOccurrencePreviews ++ js " of " ++ decimal occurrences ++ js ")"
    else []
  let pathSuffix := if path.isEmpty then [] else js " in " ++ path
  js "Found " ++ decimal occurrences ++ js " occurrences" ++ pathSuffix ++ moreMsg ++ js ":\n\n" ++
    (js "\n\n").intercalate occurrencePreviews ++ js "\n\nAdd more context lines to disambiguate."

/- `split` at a text that is not empty. -/
def splitFrom (separator : JsString) : Nat → JsString → List JsString
  | 0, text => [text]
  | fuel + 1, text =>
      match indexOf separator text with
      | none => [text]
      | some idx => text.take idx :: splitFrom separator fuel (text.drop (idx + separator.length))

def splitText (content separator : JsString) : List JsString := splitFrom separator (content.length + 1) content

section
variable {Score : Type} (sc : Scoring Score)

def defaultFuzzyThreshold : Score := sc.const 950

/- The closest text will do when no other reaches the threshold. -/
def replaceTarget (fuzzy : Bool) (threshold : Score) (outcome : MatchOutcome Score) : Option (FuzzyMatch Score) :=
  outcome.found.or <| outcome.closest.filter fun closest =>
    fuzzy && sc.ge closest.confidence threshold && decide (outcome.fuzzyMatches.getD 0 ≤ 1)

def replaceMatch (content : JsString) (found : FuzzyMatch Score) (adjustedNewText : JsString) : JsString :=
  content.take found.startIndex ++ adjustedNewText ++ content.drop (found.startIndex + found.actualText.length)

/- What a round replaces; the last round replaces nothing. -/
def nextReplacement (fuzzy : Bool) (threshold : Score) (oldText newText content : JsString) :
    Option (FuzzyMatch Score × JsString) :=
  match replaceTarget sc fuzzy threshold (findMatch sc content oldText fuzzy threshold) with
  | none => none
  | some found =>
      let adjustedNewText := adjustIndentation oldText found.actualText newText
      if adjustedNewText = found.actualText then none else some (found, adjustedNewText)

/- None while the loop is still running. -/
def replaceLoop (fuzzy : Bool) (threshold : Score) (oldText newText : JsString) : Nat → JsString → Nat → Option ReplaceResult
  | 0, _, _ => none
  | rounds + 1, content, count =>
      match nextReplacement sc fuzzy threshold oldText newText content with
      | none => some ⟨content,count⟩
      | some (found, adjustedNewText) =>
          replaceLoop fuzzy threshold oldText newText rounds (replaceMatch content found adjustedNewText) (count + 1)

def replaceText (rounds : Nat) (content oldText newText : JsString) (options : ReplaceOptions Score) :
    Option (Except JsString ReplaceResult) :=
  if oldText.isEmpty then some (.error (js "oldText must not be empty."))
  else
    let threshold := options.threshold.getD (defaultFuzzyThreshold sc)
    let normalizedContent := normalizeToLF content
    let normalizedOldText := normalizeToLF oldText
    let normalizedNewText := normalizeToLF newText
    if options.all then
      let parts := splitText normalizedContent normalizedOldText
      let exactCount := parts.length - 1
      if 0 < exactCount then some (.ok ⟨normalizedNewText.intercalate parts,exactCount⟩)
      else
        (replaceLoop sc options.fuzzy threshold normalizedOldText normalizedNewText rounds normalizedContent 0).map .ok
    else
      let matchOutcome := findMatch sc normalizedContent normalizedOldText options.fuzzy threshold
      let occurrences := matchOutcome.occurrences.getD 0
      if 1 < occurrences then some (.error (formatOccurrenceMatchError occurrences matchOutcome.occurrencePreviews []))
      else
        match matchOutcome.found with
        | none => some (.ok ⟨normalizedContent,0⟩)
        | some found =>
            let adjustedNewText := adjustIndentation normalizedOldText found.actualText normalizedNewText
            some (.ok ⟨replaceMatch normalizedContent found adjustedNewText,1⟩)

end

theorem indexOf_firstAt (token text : JsString) : indexOf token text = firstAt token text := by
  induction text with
  | nil => rfl
  | cons c rest ih => rw [indexOf, firstAt, ih]

/-- Joining what a text was split into is replacing its occurrences. -/
theorem join_splitFrom (separator newText : JsString) (fuel : Nat) (text : JsString) :
    newText.intercalate (splitFrom separator fuel text) = (Cut.cutFuel separator newText fuel text).shown := by
  induction fuel generalizing text with
  | zero => rw [splitFrom, List.intercalate_singleton]; rfl
  | succ fuel ih =>
    rw [splitFrom, Cut.cutFuel, indexOf_firstAt]
    cases firstAt separator text with
    | none => exact List.intercalate_singleton
    | some idx =>
      dsimp only
      have some' : splitFrom separator fuel (text.drop (idx + separator.length)) ≠ [] := by
        unfold splitFrom
        split
        · simp
        · split <;> simp
      rw [List.intercalate_cons_of_ne_nil some', ih, Cut.shown]

theorem splitFrom_edits (separator newText : JsString) (fuel : Nat) (text : JsString) (place : Nat) :
    (splitFrom separator fuel text).length = ((Cut.cutFuel separator newText fuel text).edits place).length + 1 := by
  induction fuel generalizing text place with
  | zero => rfl
  | succ fuel ih =>
    rw [splitFrom, Cut.cutFuel, indexOf_firstAt]
    cases firstAt separator text with
    | none => rfl
    | some idx =>
      dsimp only
      rw [List.length_cons, ih, Cut.edits, List.length_cons]

section
variable {Score : Type} {sc : Scoring Score} {fuzzy : Bool} {threshold : Score}

theorem closest_best {content target : JsString} {closest : FuzzyMatch Score}
    (is : (findMatch sc content target fuzzy threshold).closest = some closest) :
    (findBestFuzzyMatch sc content target threshold).best = some closest := by
  rw [findMatch] at is
  split at is
  · contradiction
  · cases exact' : indexOf target content with
    | some i =>
      by_cases many : 1 < countOccurrences content target
      · simp only [findExactMatchOutcome, exact', if_pos many] at is
        contradiction
      · simp only [findExactMatchOutcome, exact', if_neg many] at is
        contradiction
    | none =>
      simp only [findExactMatchOutcome, exact'] at is
      split at is
      · contradiction
      · rename_i best hasBest
        rw [hasBest]
        split at is
        · exact is
        · split at is
          · exact is
          · exact is

/-- What a round is about to replace is the text that stands there. -/
theorem target_stands {content oldText : JsString} {found : FuzzyMatch Score}
    (is : replaceTarget sc fuzzy threshold (findMatch sc content oldText fuzzy threshold) = some found) :
    (content.drop found.startIndex).take found.actualText.length = found.actualText := by
  have stands : found.actualText <+: content.drop found.startIndex := by
    have window : (findBestFuzzyMatch sc content oldText threshold).best = some found →
        found.actualText <+: content.drop found.startIndex := by
      intro hasBest
      obtain ⟨includeDepth,start,inside,same⟩ := best_fuzzy sc hasBest
      have some' : 0 < (splitLines oldText).length := by
        rw [splitLines_length]
        omega
      have place : found.startIndex = (terminate ((splitLines content).take start)).length := by
        rw [same]
        dsimp only
        rw [offset_terminate _ _ (by omega), Nat.zero_add]
      have behind := congrArg (List.drop found.startIndex) (window_stands some' inside)
      rw [List.append_assoc, place, List.drop_left] at behind
      rw [place, behind, same]
      exact List.prefix_append _ _
    rw [replaceTarget, Option.or_eq_some_iff] at is
    rcases is with direct | ⟨_,close⟩
    · obtain ⟨_,⟨first,_,text⟩ | ⟨_,_,_,hasBest⟩⟩ := findMatch_found sc direct
      · rw [text]
        exact (indexOf_begins first).1
      · exact window hasBest
    · exact window (closest_best (Option.filter_eq_some_iff.mp close).1)
  exact (List.prefix_iff_eq_take.mp stands).symm

variable {oldText newText : JsString}

theorem next_adjusted {content adjustedNewText : JsString} {found : FuzzyMatch Score}
    (next : nextReplacement sc fuzzy threshold oldText newText content = some (found, adjustedNewText)) :
    adjustedNewText =
      adjustIndentation oldText ((content.drop found.startIndex).take found.actualText.length) newText := by
  rw [nextReplacement] at next
  split at next
  · contradiction
  · rename_i target is
    dsimp only at next
    split at next
    · contradiction
    · cases next
      rw [target_stands is]

end

section rounds
variable {Score : Type} (sc : Scoring Score) (fuzzy : Bool) (threshold : Score) (oldText newText content : JsString)

/- What the rounds come to, as long as each replaces text of the file. -/
inductive Replaced : Cut CodeUnit → Prop where
  | start : Replaced (.whole content)
  | next {cut out : Cut CodeUnit} {found : FuzzyMatch Score} {adjustedNewText : JsString} (reached : Replaced cut)
      (round : nextReplacement sc fuzzy threshold oldText newText cut.shown = some (found, adjustedNewText))
      (spliced : cut.splice adjustedNewText found.startIndex found.actualText.length = some out) : Replaced out

/-- No round replaces text that a round before it has put in, or inserts next to such text. -/
def Untouched : Prop :=
  ∀ cut, Replaced sc fuzzy threshold oldText newText content cut → ∀ found adjustedNewText,
    nextReplacement sc fuzzy threshold oldText newText cut.shown = some (found, adjustedNewText) →
      (cut.splice adjustedNewText found.startIndex found.actualText.length).isSome = true

variable {sc fuzzy threshold oldText newText content}

structure ReplacedCut (oldText newText content : JsString) (cut : Cut CodeUnit) : Prop where
  original : cut.original = content
  spread : cut.Spread
  adjusted : cut.All fun actualText mark => mark = adjustIndentation oldText actualText newText

theorem replaced_cut {cut : Cut CodeUnit} (reached : Replaced sc fuzzy threshold oldText newText content cut) :
    ReplacedCut oldText newText content cut := by
  induction reached with
  | start => exact ⟨rfl,trivial,trivial⟩
  | next _ round spliced ih =>
    exact ⟨(Cut.splice_original spliced).trans ih.original,Cut.splice_spread spliced ih.spread,
      Cut.splice_all spliced ih.adjusted (next_adjusted round)⟩

/-- The loop comes to an end within two rounds for each place of the file. -/
theorem loop_stops (untouched : Untouched sc fuzzy threshold oldText newText content) (rounds : Nat) {cut : Cut CodeUnit}
    (reached : Replaced sc fuzzy threshold oldText newText content cut)
    (enough : 2 * content.length + 1 < rounds + (cut.edits 0).length) :
    ∃ last, Replaced sc fuzzy threshold oldText newText content last ∧
      replaceLoop sc fuzzy threshold oldText newText rounds cut.shown (cut.edits 0).length =
        some ⟨last.shown,(last.edits 0).length⟩ := by
  induction rounds generalizing cut with
  | zero =>
    have here := replaced_cut reached
    have few := Cut.edits_few here.spread
    rw [here.original] at few
    omega
  | succ rounds ih =>
    rw [replaceLoop]
    cases round : nextReplacement sc fuzzy threshold oldText newText cut.shown with
    | none => exact ⟨cut,reached,rfl⟩
    | some replacement =>
      obtain ⟨found,adjustedNewText⟩ := replacement
      obtain ⟨out,spliced⟩ := Option.isSome_iff_exists.mp (untouched cut reached found adjustedNewText round)
      have more := Cut.splice_edits spliced 0
      obtain ⟨last,end',run⟩ := ih (.next reached round spliced) (by omega)
      rw [more, Cut.splice_shown spliced] at run
      exact ⟨last,end',run⟩

theorem loop_more {rounds more : Nat} {text : JsString} {count : Nat} {result : ReplaceResult} (le : rounds ≤ more)
    (run : replaceLoop sc fuzzy threshold oldText newText rounds text count = some result) :
    replaceLoop sc fuzzy threshold oldText newText more text count = some result := by
  induction rounds generalizing more text count with
  | zero => contradiction
  | succ rounds ih =>
    obtain ⟨others,rfl⟩ : ∃ others, more = others + 1 := ⟨more - 1,by omega⟩
    rw [replaceLoop] at run ⊢
    split at run
    · exact run
    · exact ih (by omega) run

end rounds

/-- A result is the file with edits that stand apart, each of which adjusts the new text to the text it replaces. -/
structure ReplacedOnce (content oldText newText : JsString) (result : ReplaceResult) (edits : List (FlatEdits.Edit CodeUnit)) :
    Prop where
  inside : ∀ edit ∈ edits, edit.start ≤ edit.stop ∧ edit.stop ≤ content.length
  apart : edits.Pairwise CutText.Ahead
  adjusted : ∀ edit ∈ edits,
    edit.items = adjustIndentation oldText ((content.take edit.stop).drop edit.start) newText
  content : result.content = FlatEdits.simultaneous edits content
  count : result.count = edits.length

theorem replaced_once {content oldText newText : JsString} {cut : Cut CodeUnit} (here : ReplacedCut oldText newText content cut) :
    ReplacedOnce content oldText newText ⟨cut.shown,(cut.edits 0).length⟩ (cut.edits 0) := by
  have shown := Cut.shown_simultaneous cut []
  have adjusted := Cut.edits_all here.adjusted []
  rw [List.nil_append, List.nil_append, here.original] at shown
  rw [List.nil_append, here.original] at adjusted
  refine ⟨?_,Cut.edits_ahead here.spread 0,adjusted,shown.symm,rfl⟩
  intro edit mem
  have inside := Cut.edits_inside mem
  rw [here.original] at inside
  omega

theorem normalizeToLF_some {text : JsString} (some' : text ≠ []) : normalizeToLF text ≠ [] := by
  fun_cases normalizeToLF text <;> simp_all

/-- Exact occurrences are replaced at once, and so is everything else as long as no round comes upon what
    another has put in: the call ends, and what it replaces is text of the file, each piece of it once. -/
theorem replace_all_ends {Score : Type} (sc : Scoring Score) (content oldText newText : JsString) (options : ReplaceOptions Score)
    (all : options.all = true)
    (untouched : normalizeToLF oldText <:+: normalizeToLF content ∨
      Untouched sc options.fuzzy (options.threshold.getD (defaultFuzzyThreshold sc)) (normalizeToLF oldText)
        (normalizeToLF newText) (normalizeToLF content)) :
    ∃ outcome, (∀ rounds, 2 * (normalizeToLF content).length + 2 ≤ rounds →
        replaceText sc rounds content oldText newText options = some outcome) ∧
      match outcome with
      | .error _ => oldText = []
      | .ok result => ∃ edits,
          ReplacedOnce (normalizeToLF content) (normalizeToLF oldText) (normalizeToLF newText) result edits := by
  by_cases empty : oldText = []
  · refine ⟨.error (js "oldText must not be empty."),?_,empty⟩
    intro rounds _
    rw [replaceText, empty]
    rfl
  · have some' := normalizeToLF_some empty
    have notEmpty : ¬ oldText.isEmpty = true := by simpa using empty
    have count := splitFrom_edits (normalizeToLF oldText) (normalizeToLF newText) ((normalizeToLF content).length + 1)
      (normalizeToLF content) 0
    by_cases occurs : normalizeToLF oldText <:+: normalizeToLF content
    · obtain ⟨i,first⟩ := Option.ne_none_iff_exists'.mp fun missing => firstAt_none_iff.mp missing occurs
      have exactCount : 0 < (splitText (normalizeToLF content) (normalizeToLF oldText)).length - 1 := by
        rw [splitText, count, Cut.cutFuel, first, Cut.edits, List.length_cons]
        omega
      have here : ReplacedCut (normalizeToLF oldText) (normalizeToLF newText) (normalizeToLF content)
          (Cut.cutFuel (normalizeToLF oldText) (normalizeToLF newText) ((normalizeToLF content).length + 1)
            (normalizeToLF content)) := by
        have nonempty := @Cut.all_cutFuel _ _ _ (normalizeToLF newText) (fun token _ => token ≠ []) some'
        refine ⟨Cut.original_cutFuel _ _,Cut.spread_of_some (nonempty _ _),Cut.all_cutFuel ?_ _ _⟩
        rw [adjustIndentation, if_pos rfl]
      refine ⟨.ok ⟨_,_⟩,?_,_,replaced_once here⟩
      intro rounds _
      rw [replaceText, if_neg notEmpty]
      dsimp only
      rw [if_pos all, if_pos exactCount, splitText, join_splitFrom, count, Nat.add_sub_cancel]
    · have missing := firstAt_none_iff.mpr occurs
      have noExact : ¬ 0 < (splitText (normalizeToLF content) (normalizeToLF oldText)).length - 1 := by
        rw [splitText, splitFrom, indexOf_firstAt, missing]
        exact Nat.lt_irrefl 0
      have away := untouched.resolve_left occurs
      obtain ⟨last,reached,run⟩ := loop_stops away (2 * (normalizeToLF content).length + 2) .start (by
        rw [Cut.edits]
        exact Nat.lt_succ_self _)
      refine ⟨.ok ⟨_,_⟩,?_,_,replaced_once (replaced_cut reached)⟩
      intro rounds enough
      rw [replaceText, if_neg notEmpty]
      dsimp only
      have ends := loop_more enough run
      rw [if_pos all, if_neg noExact]
      exact congrArg (Option.map Except.ok) ends

theorem next_of {Score : Type} {sc : Scoring Score} {fuzzy : Bool} {threshold : Score}
    {oldText newText content : JsString} {place : Nat} {text adjusted : JsString}
    (is : (nextReplacement sc fuzzy threshold oldText newText content).map
      (fun r => (r.1.startIndex, r.1.actualText, r.2)) = some (place, text, adjusted)) :
    ∃ found, nextReplacement sc fuzzy threshold oldText newText content = some (found, adjusted) ∧
      found.startIndex = place ∧ found.actualText = text := by
  obtain ⟨⟨found,other⟩,round,same⟩ := Option.map_eq_some_iff.mp is
  cases same
  exact ⟨found,round,rfl,rfl⟩

/-- A file of two lines, the first of which differs from the old text in its blanks. -/
theorem replace_all_ends_blanks : ∃ outcome,
    (∀ rounds, 2 * (normalizeToLF (js "a  b\nc")).length + 2 ≤ rounds →
      replaceText wholeScores rounds (js "a  b\nc") (js "a b") (js "z") ⟨true,true,none⟩ = some outcome) ∧
    match outcome with
    | .error _ => js "a b" = []
    | .ok result => ∃ edits, ReplacedOnce (normalizeToLF (js "a  b\nc")) (normalizeToLF (js "a b")) (normalizeToLF (js "z"))
        result edits := by
  apply replace_all_ends wholeScores (js "a  b\nc") (js "a b") (js "z") ⟨true,true,none⟩ rfl
  right
  obtain ⟨first,firstRound,place,text⟩ :=
    @next_of _ wholeScores true 950 (js "a b") (js "z") (js "a  b\nc") 0 (js "a  b") (js "z") (by decide +kernel)
  have second : (nextReplacement wholeScores true 950 (js "a b") (js "z") (js "z\nc")).isNone = true := by
    decide +kernel
  have cuts : ∀ cut, Replaced wholeScores true 950 (js "a b") (js "z") (js "a  b\nc") cut →
      cut = .whole (js "a  b\nc") ∨ cut.shown = js "z\nc" := by
    intro cut reached
    induction reached with
    | start => exact .inl rfl
    | next _ round spliced ih =>
      right
      rcases ih with whole | replaced
      · rw [whole] at round spliced
        cases firstRound.symm.trans round
        rw [Cut.splice_shown spliced, place, text]
        rfl
      · rw [replaced] at round
        rw [round] at second
        contradiction
  intro cut reached found adjustedNewText round
  rcases cuts cut reached with whole | replaced
  · rw [whole] at round ⊢
    cases firstRound.symm.trans round
    rw [place, text]
    rfl
  · have round' : nextReplacement wholeScores true 950 (js "a b") (js "z") (js "z\nc") = some (found, adjustedNewText) := by
      rw [← replaced]
      exact round
    rw [round'] at second
    contradiction

/-- A text that goes on to contain the old text is found again each time it has been put in. -/
theorem replacement_never_ends :
    ¬ ∃ rounds outcome, replaceText wholeScores rounds (js "a  b") (js "a b") (js "xa b") ⟨true,true,none⟩ = some outcome := by
  have again : ∀ n, ∃ found, nextReplacement wholeScores true 950 (js "a b") (js "xa b") (List.replicate n 120 ++ js "a b") =
      some (found, js "xa b") ∧ found.startIndex = n ∧ found.actualText = js "a b" := by
    intro n
    have first : indexOf (js "a b") (List.replicate n 120 ++ js "a b") = some n := by
      induction n with
      | zero => decide
      | succ n ih =>
        have other : (js "a b").isPrefixOf (120 :: (List.replicate n 120 ++ js "a b")) = false := rfl
        rw [List.replicate_succ, List.cons_append, indexOf, other, ih]
        rfl
    have behind : (List.replicate n 120 ++ js "a b").drop (n + (js "a b").length) = [] := by
      apply List.drop_eq_nil_of_le
      rw [List.length_append, List.length_replicate]
    have once : countOccurrences (List.replicate n 120 ++ js "a b") (js "a b") ≤ 1 := by
      have none' : ∀ fuel, countFrom (js "a b") fuel [] = 0 := by
        intro fuel
        cases fuel with
        | zero => rfl
        | succ fuel => rfl
      rw [countOccurrences, countFrom, first]
      dsimp only
      rw [behind, none']
    refine ⟨⟨js "a b",n,lineNumberAt (List.replicate n 120 ++ js "a b") n,1000⟩,?_,rfl,rfl⟩
    rw [nextReplacement, findMatch_exact wholeScores true 950 (by decide) first once]
    rfl
  have loops : ∀ rounds n count,
      replaceLoop wholeScores true 950 (js "a b") (js "xa b") rounds (List.replicate n 120 ++ js "a b") count = none := by
    intro rounds
    induction rounds with
    | zero => exact fun _ _ => rfl
    | succ rounds ih =>
      intro n count
      obtain ⟨found,round,place,text⟩ := again n
      have longer : replaceMatch (List.replicate n 120 ++ js "a b") found (js "xa b") =
          List.replicate (n + 1) 120 ++ js "a b" := by
        rw [replaceMatch, place, text, List.take_left' List.length_replicate, List.drop_eq_nil_of_le (by simp),
          List.append_nil, List.replicate_succ', List.append_assoc]
        rfl
      rw [replaceLoop, round]
      dsimp only
      rw [longer]
      exact ih (n + 1) (count + 1)
  obtain ⟨first,firstRound,place,text⟩ :=
    @next_of _ wholeScores true 950 (js "a b") (js "xa b") (js "a  b") 0 (js "a  b") (js "xa b") (by decide +kernel)
  have start : ∀ rounds, replaceLoop wholeScores true 950 (js "a b") (js "xa b") rounds (js "a  b") 0 = none := by
    intro rounds
    cases rounds with
    | zero => rfl
    | succ rounds =>
      rw [replaceLoop, firstRound]
      dsimp only
      rw [replaceMatch, place, text]
      exact loops rounds 1 1
  rintro ⟨rounds,outcome,ends⟩
  have running : replaceText wholeScores rounds (js "a  b") (js "a b") (js "xa b") ⟨true,true,none⟩ = none :=
    congrArg (Option.map Except.ok) (start rounds)
  rw [running] at ends
  contradiction

end Edit
