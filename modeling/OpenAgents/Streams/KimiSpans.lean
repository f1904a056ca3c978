import OpenAgents.Streams.ChunkInvariance

/- Which units of a Kimi stream are shown. The markers of a text can be read off before its modes are
   known, and what is shown of each depends on two flags. -/
namespace StreamMarkupHealing
open JsText JsJson HeldScanner

inductive Mark where
  | sectionBegin
  | sectionEnd
  | callBegin
  | argBegin
  | callEnd
  | unit (ch : CodeUnit)
  deriving DecidableEq

def Mark.text : Mark → JsString
  | .sectionBegin => kimiSectionBegin
  | .sectionEnd => kimiSectionEnd
  | .callBegin => kimiCallBegin
  | .argBegin => kimiArgBegin
  | .callEnd => kimiCallEnd
  | .unit ch => [ch]

/- None where a marker may begin that the text does not reach the end of. -/
def markAt (s : JsString) : Option Mark :=
  if startsWithPartialToken s kimiTokens maxKimiPartialHold then none
  else if matchesToken s kimiSectionBegin then some .sectionBegin
  else if matchesToken s kimiSectionEnd then some .sectionEnd
  else if matchesToken s kimiCallBegin then some .callBegin
  else if matchesToken s kimiArgBegin then some .argBegin
  else if matchesToken s kimiCallEnd then some .callEnd
  else s.head?.map .unit

/-- The marks of a text, and the tail that is held back. -/
inductive Marks : JsString → List Mark → JsString → Prop
  | empty : Marks [] [] []
  | held {s : JsString} (some' : s ≠ []) (at' : markAt s = none) : Marks s [] s
  | next {s rest tail : JsString} {mark : Mark} {marks : List Mark} (at' : markAt s = some mark) (is : s = mark.text ++ rest)
      (later : Marks rest marks tail) : Marks s (mark :: marks) tail

theorem markAt_text {s : JsString} {mark : Mark} (at' : markAt s = some mark) : ∃ rest, s = mark.text ++ rest := by
  have begins : ∀ token, matchesToken s token = true → ∃ rest, s = token ++ rest := fun token is => by
    obtain ⟨rest,same⟩ := List.isPrefixOf_iff_prefix.mp is
    exact ⟨rest,same.symm⟩
  unfold markAt at at'
  split_ifs at at' with _ opens closes call argument ends
  · cases at'
    exact begins _ opens
  · cases at'
    exact begins _ closes
  · cases at'
    exact begins _ call
  · cases at'
    exact begins _ argument
  · cases at'
    exact begins _ ends
  · cases s with
    | nil => cases at'
    | cons ch rest =>
      cases at'
      exact ⟨rest,rfl⟩

theorem mark_pos (mark : Mark) : 0 < mark.text.length := by
  cases mark with
  | unit ch => exact Nat.one_pos
  | _ => decide

theorem marks_exist (s : JsString) : ∃ marks tail, Marks s marks tail := by
  generalize size : s.length = n
  induction n using Nat.strong_induction_on generalizing s with
  | h n ih =>
    by_cases some' : s = []
    · exact ⟨[],[],some' ▸ .empty⟩
    · cases at' : markAt s with
      | none => exact ⟨[],s,.held some' at'⟩
      | some mark =>
        obtain ⟨rest,is⟩ := markAt_text at'
        have takes := mark_pos mark
        have lengths := congrArg List.length is
        rw [List.length_append, size] at lengths
        obtain ⟨marks,tail,later⟩ := ih rest.length (by omega) rest rfl
        exact ⟨mark :: marks,tail,.next at' is later⟩

/- The flags that decide what is shown. -/
structure Flags where
  inSection : Bool
  inCall : Bool
  deriving DecidableEq

def Mode.flags (mode : Mode) : Flags := ⟨mode.kimiInSection,mode.kimiInCall⟩

def Flags.step (flags : Flags) : Mark → Flags
  | .sectionBegin => { flags with inSection := true }
  | .sectionEnd => { flags with inSection := false }
  | .callBegin => if flags.inSection then { flags with inCall := true } else flags
  | .callEnd => if flags.inSection && flags.inCall then { flags with inCall := false } else flags
  | _ => flags

def Flags.shows (flags : Flags) : Mark → Bool
  | .sectionBegin => false
  | .sectionEnd => false
  | .callBegin => !flags.inSection
  | .argBegin => !flags.inSection
  | .callEnd => !flags.inSection || !flags.inCall
  | .unit _ => !flags.inCall && !flags.inSection

def Output.isClean : Output → Bool
  | .clean _ => true
  | _ => false

/-- The text of an event that is shown. -/
def Event.visible : Event → JsString
  | .text shown => shown
  | _ => []

def visibleText (events : List Event) : JsString := events.flatMap Event.visible

/-- The units of a text at the places that are marked. -/
def pick : List Bool → JsString → JsString
  | shown :: mask, ch :: text => if shown then ch :: pick mask text else pick mask text
  | _, _ => []

theorem pick_append (shown : Bool) (mask : List Bool) (first rest : JsString) :
    pick (List.replicate first.length shown ++ mask) (first ++ rest) = (if shown then first else []) ++ pick mask rest := by
  induction first with
  | nil => cases shown <;> rfl
  | cons ch first ih =>
    simp only [List.length_cons, List.replicate_succ, List.cons_append, pick]
    cases shown with
    | false => simpa using ih
    | true => simpa using ih

/- What is shown of each mark, and of the tail when the stream ends. -/
def shownMask (tail : JsString) : Flags → List Mark → List Bool
  | flags, [] => List.replicate tail.length !(flags.inCall || flags.inSection)
  | flags, mark :: marks => List.replicate mark.text.length (flags.shows mark) ++ shownMask tail (flags.step mark) marks

section Repair
variable (parseJsonWithRepair : JsString → Option Json)

/- Which units of a text are pushed as text, when it is fed and flushed. -/
def emittedFuel : Nat → Mode → JsString → List Bool
  | 0, _, _ => []
  | fuel + 1, mode, s =>
      if s.isEmpty then []
      else
        match consumeKimi parseJsonWithRepair mode s with
        | none => List.replicate s.length !(mode.kimiInCall || mode.kimiInSection)
        | some taken => List.replicate taken.size taken.output.isClean ++ emittedFuel fuel taken.mode (s.drop taken.size)

/- Each turn takes a unit or more. -/
def emitted (text : JsString) : List Bool := emittedFuel parseJsonWithRepair text.length .initial text

/-- A turn takes the mark, and what it shows is the mark itself. -/
structure Takes (mode : Mode) (mark : Mark) (taken : Taken Mode Output) : Prop where
  size : taken.size = mark.text.length
  flags : taken.mode.flags = mode.flags.step mark
  clean : taken.output.isClean = mode.flags.shows mark
  shown : visibleText taken.output.events = if mode.flags.shows mark then mark.text else []

theorem visible_textEvents (text : JsString) : visibleText (textEvents text) = text := by
  cases text with
  | nil => rfl
  | cons ch text => simp [visibleText, textEvents, Event.visible]

variable {s tail : JsString} {mode : Mode} {marks : List Mark}

theorem consumeKimi_held (mode : Mode) (at' : markAt s = none) : consumeKimi parseJsonWithRepair mode s = none := by
  unfold markAt at at'
  unfold consumeKimi
  by_cases held : startsWithPartialToken s kimiTokens maxKimiPartialHold = true
  · rw [if_pos held]
  · rw [if_neg held] at at' ⊢
    split_ifs at at'
    cases s with
    | nil => rfl
    | cons ch rest => cases at'

theorem consumeKimi_takes (mode : Mode) {mark : Mark} (at' : markAt s = some mark) :
    ∃ taken, consumeKimi parseJsonWithRepair mode s = some taken ∧ Takes mode mark taken := by
  have nothing : visibleText (Output.events .nothing) = [] := rfl
  have shows : ∀ text, visibleText (Output.events (.clean text)) = text := visible_textEvents
  unfold markAt at at'
  unfold consumeKimi
  split_ifs at at' with held opens closes call argument ends
  · cases at'
    rw [if_neg held, if_pos opens]
    exact ⟨_,rfl,rfl,rfl,rfl,rfl⟩
  · cases at'
    rw [if_neg held, if_neg opens, if_pos closes]
    exact ⟨_,rfl,rfl,rfl,rfl,rfl⟩
  · cases at'
    rw [if_neg held, if_neg opens, if_neg closes, if_pos call]
    cases inside : mode.kimiInSection with
    | false => exact ⟨_,rfl,rfl,by simp [Mode.flags, Flags.step, inside],by simp [Mode.flags, Flags.shows, inside, Output.isClean],
        by simp [Mode.flags, Flags.shows, inside, shows, Mark.text]⟩
    | true => exact ⟨_,rfl,rfl,by simp [Mode.flags, Flags.step, inside, leaveKimiCall],
        by simp [Mode.flags, Flags.shows, inside, Output.isClean],by simp [Mode.flags, Flags.shows, inside, nothing]⟩
  · cases at'
    rw [if_neg held, if_neg opens, if_neg closes, if_neg call, if_pos argument]
    cases inside : mode.kimiInSection with
    | false => exact ⟨_,rfl,rfl,by simp [Mode.flags, Flags.step, inside],by simp [Mode.flags, Flags.shows, inside, Output.isClean],
        by simp [Mode.flags, Flags.shows, inside, shows, Mark.text]⟩
    | true => exact ⟨_,rfl,rfl,by simp [Mode.flags, Flags.step, inside],by simp [Mode.flags, Flags.shows, inside, Output.isClean],
        by simp [Mode.flags, Flags.shows, inside, nothing]⟩
  · cases at'
    rw [if_neg held, if_neg opens, if_neg closes, if_neg call, if_neg argument, if_pos ends]
    cases inCall : mode.kimiInSection && mode.kimiInCall with
    | false =>
      have outside : (!mode.kimiInSection || !mode.kimiInCall) = true := by rw [← Bool.not_and, inCall, Bool.not_false]
      rw [if_pos outside]
      exact ⟨_,rfl,rfl,by simp [Mode.flags, Flags.step, inCall],by simp only [Mode.flags, Flags.shows, outside]; rfl,
        by simp only [Mode.flags, Flags.shows, outside, shows]; rfl⟩
    | true =>
      have inside : ¬ (!mode.kimiInSection || !mode.kimiInCall) = true := by rw [← Bool.not_and, inCall, Bool.not_true]; decide
      rw [if_neg inside]
      have hidden : (!mode.kimiInSection || !mode.kimiInCall) = false := by simpa using inside
      exact ⟨_,rfl,rfl,by simp only [Mode.flags, Flags.step, inCall, leaveKimiCall]; rfl,
        by simp only [Mode.flags, Flags.shows, hidden]; rfl,by simp only [Mode.flags, Flags.shows, hidden]; rfl⟩
  · rw [if_neg held, if_neg opens, if_neg closes, if_neg call, if_neg argument, if_neg ends]
    cases s with
    | nil => cases at'
    | cons ch rest =>
      cases at'
      cases inCall : mode.kimiInCall with
      | true =>
        cases mode.kimiInArgs with
        | true => exact ⟨_,rfl,rfl,by simp [Mode.flags, Flags.step, inCall],by simp [Mode.flags, Flags.shows, inCall, Output.isClean],
            by simp [Mode.flags, Flags.shows, inCall, nothing]⟩
        | false => exact ⟨_,rfl,rfl,by simp [Mode.flags, Flags.step, inCall],by simp [Mode.flags, Flags.shows, inCall, Output.isClean],
            by simp [Mode.flags, Flags.shows, inCall, nothing]⟩
      | false =>
        cases inside : mode.kimiInSection with
        | true => exact ⟨_,rfl,rfl,by simp [Mode.flags, Flags.step, inCall, inside],by simp [Mode.flags, Flags.shows, inCall, inside, Output.isClean],
            by simp [Mode.flags, Flags.shows, inCall, inside, nothing]⟩
        | false => exact ⟨_,rfl,rfl,by simp [Mode.flags, Flags.step, inCall, inside],by simp [Mode.flags, Flags.shows, inCall, inside, Output.isClean],
            by simp [Mode.flags, Flags.shows, inCall, inside, shows, Mark.text]⟩

theorem emittedFuel_marks {fuel : Nat} (read : Marks s marks tail) (enough : s.length ≤ fuel) : emittedFuel parseJsonWithRepair fuel mode s = shownMask tail mode.flags marks := by
  induction read generalizing fuel mode with
  | empty => cases fuel <;> rfl
  | @held s some' at' =>
    obtain ⟨fuel,rfl⟩ : ∃ k, fuel = k + 1 := ⟨fuel - 1,by have := List.length_pos_iff.mpr some'; omega⟩
    have full : s.isEmpty = false := by simpa using some'
    simp only [emittedFuel, full, consumeKimi_held parseJsonWithRepair mode at']
    rfl
  | @next s rest tail mark marks at' is later ih =>
    obtain ⟨taken,takes,spec⟩ := consumeKimi_takes parseJsonWithRepair mode at'
    have positive := mark_pos mark
    have lengths := congrArg List.length is
    rw [List.length_append] at lengths
    obtain ⟨fuel,rfl⟩ : ∃ k, fuel = k + 1 := ⟨fuel - 1,by omega⟩
    have full : s.isEmpty = false := by
      rw [List.isEmpty_eq_false_iff, ← List.length_pos_iff]
      omega
    have dropped : s.drop mark.text.length = rest := by rw [is, List.drop_left]
    simp only [emittedFuel, full, takes, spec.size, spec.clean]
    rw [dropped, ih (by omega : rest.length ≤ fuel), spec.flags]
    rfl

/-- What is pushed and flushed as text are the emitted units. -/
theorem scan_visible (read : Marks s marks tail) {scanned : Scan CodeUnit Mode Output}
    (run : Scans (consumeKimi parseJsonWithRepair) mode s scanned) :
    visibleText (scanned.outputs.flatMap Output.events) ++ (if scanned.mode.kimiInCall || scanned.mode.kimiInSection then [] else scanned.rest) =
      pick (shownMask tail mode.flags marks) s := by
  induction read generalizing mode scanned with
  | empty =>
    cases run with
    | empty => simp [visibleText, pick]
    | hold => simp [visibleText, pick]
    | take _ _ _ _ nonempty => exact absurd rfl nonempty
  | @held s some' at' =>
    have none' := consumeKimi_held parseJsonWithRepair mode at'
    cases run with
    | empty => exact absurd rfl some'
    | hold =>
      have whole := pick_append (!(mode.kimiInCall || mode.kimiInSection)) [] s []
      rw [List.append_nil, List.append_nil] at whole
      rw [shownMask, Mode.flags, whole]
      cases mode.kimiInCall || mode.kimiInSection <;> simp [visibleText, pick]
    | take _ _ taken _ _ decided =>
      rw [none'] at decided
      cases decided
  | @next s rest tail mark marks at' is later ih =>
    obtain ⟨taken,takes,spec⟩ := consumeKimi_takes parseJsonWithRepair mode at'
    cases run with
    | empty =>
      have positive := mark_pos mark
      rw [eq_comm, List.append_eq_nil_iff] at is
      rw [is.1] at positive
      exact absurd positive (Nat.lt_irrefl 0)
    | hold _ _ held =>
      rw [held] at takes
      cases takes
    | take _ _ other after _ decided behind =>
      rw [decided] at takes
      cases takes
      have dropped : s.drop taken.size = rest := by rw [spec.size, is, List.drop_left]
      rw [dropped] at behind
      have rest' := ih behind
      rw [spec.flags] at rest'
      have shown := spec.shown
      simp only [List.flatMap_cons, visibleText, List.flatMap_append] at shown rest' ⊢
      rw [List.append_assoc, rest', shown, shownMask, is, pick_append]

theorem visible_merge (events : List Event) : visibleText (mergeEvents events) = visibleText events := by
  induction events with
  | nil => rfl
  | cons event rest ih =>
    have push : ∀ event events, visibleText (pushEvent event events) = event.visible ++ visibleText events := by
      intro event events
      unfold pushEvent
      split
      · simp [visibleText, Event.visible]
      · simp [visibleText, Event.visible]
      · rfl
    rw [mergeEvents, List.foldr_cons, push, ← mergeEvents, ih]
    rfl

theorem feedAll_nonempty (h : Healing) (chunks : List JsString) :
    h.feedAll parseJsonWithRepair chunks = h.feedAll parseJsonWithRepair (chunks.filter (· ≠ [])) := by
  induction chunks generalizing h with
  | nil => rfl
  | cons chunk rest ih =>
    by_cases empty : chunk = []
    · simp only [empty, Healing.feedAll, Healing.feedEvents, List.length_nil, if_true, List.nil_append]
      simpa using ih h
    · rw [List.filter_cons_of_pos (by simpa using empty), Healing.feedAll, Healing.feedAll, ih]

theorem flatten_nonempty (chunks : List JsString) : (chunks.filter (· ≠ [])).flatten = chunks.flatten := by
  induction chunks with
  | nil => rfl
  | cons chunk rest ih =>
    by_cases empty : chunk = []
    · simpa [empty] using ih
    · rw [List.filter_cons_of_pos (by simpa using empty), List.flatten_cons, List.flatten_cons, ih]

theorem visible_same {one two : List Event} (same : SameMerged one two) : visibleText one = visibleText two := by
  rw [← visible_merge one, same.merge, visible_merge]

/-- However a text is cut, the text shown of it is made of its emitted units. -/
theorem healed_visible (chunks : List JsString) : visibleText (healedEvents parseJsonWithRepair .kimi chunks) =
    pick (emitted parseJsonWithRepair chunks.flatten) chunks.flatten := by
  have nonempty : ∀ chunk ∈ chunks.filter (· ≠ []), chunk ≠ [] := fun chunk mem => by simpa using (List.mem_filter.mp mem).2
  obtain ⟨state,events⟩ := feedAll_scan parseJsonWithRepair nonempty [] (initial_kept .kimi)
  have stable : StableCuts (consumeKimi parseJsonWithRepair) .initial [] (chunks.filter (· ≠ [])) :=
    stableCuts_of (consumeKimi_stable parseJsonWithRepair) []
  have progress := consumeKimi_progress parseJsonWithRepair
  have one : feedChunks (consume parseJsonWithRepair .kimi) .initial [] (chunks.filter (· ≠ [])) =
      scan (consumeKimi parseJsonWithRepair) .initial chunks.flatten := by
    rw [← flatten_nonempty chunks]
    exact feedChunks_eq_scan progress stable
  rw [one, ← feedAll_nonempty] at state events
  obtain ⟨marks,tail,read⟩ := marks_exist chunks.flatten
  have shown := scan_visible parseJsonWithRepair read (scan_scans progress .initial chunks.flatten)
  have start : Healing.start .kimi = ⟨.kimi,[],.initial⟩ := rfl
  have fed := visible_same events
  rw [emitted, emittedFuel_marks parseJsonWithRepair read (Nat.le_refl _), ← shown, healedEvents, start, visibleText, List.flatMap_append,
    ← visibleText, ← visibleText, fed, state]
  congr 1
  simp only [Healing.flushEvents]
  cases (scan (consumeKimi parseJsonWithRepair) Mode.initial chunks.flatten).mode.kimiInCall ||
      (scan (consumeKimi parseJsonWithRepair) Mode.initial chunks.flatten).mode.kimiInSection with
  | true => rfl
  | false => exact visible_textEvents _

end Repair

/-- Which units of a text lie outside the spans from a section begin to the next section end and belong to no
    section marker. The number counts the units left of a marker. -/
def outsideMask (inSection : Bool) : Nat → JsString → List Bool
  | _, [] => []
  | left + 1, _ :: rest => false :: outsideMask inSection left rest
  | 0, ch :: rest =>
      if kimiSectionBegin.isPrefixOf (ch :: rest) then false :: outsideMask true (kimiSectionBegin.length - 1) rest
      else if kimiSectionEnd.isPrefixOf (ch :: rest) then false :: outsideMask false (kimiSectionEnd.length - 1) rest
      else (!inSection) :: outsideMask inSection 0 rest

/- The same read off the marks. -/
def sectionMask (tail : JsString) : Bool → List Mark → List Bool
  | inSection, [] => List.replicate tail.length !inSection
  | _, .sectionBegin :: marks => List.replicate kimiSectionBegin.length false ++ sectionMask tail true marks
  | _, .sectionEnd :: marks => List.replicate kimiSectionEnd.length false ++ sectionMask tail false marks
  | inSection, mark :: marks => List.replicate mark.text.length (!inSection) ++ sectionMask tail inSection marks

theorem outsideMask_marker (inSection : Bool) (marker rest : JsString) :
    outsideMask inSection marker.length (marker ++ rest) = List.replicate marker.length false ++ outsideMask inSection 0 rest := by
  induction marker with
  | nil => rfl
  | cons ch marker ih => rw [List.cons_append, List.length_cons, outsideMask, ih, List.replicate_succ, List.cons_append]

/-- Units none of which is a `<` begin no marker. -/
theorem outsideMask_plain (inSection : Bool) {units : JsString} (plain : ∀ ch ∈ units, ch ≠ lessThan) (rest : JsString) :
    outsideMask inSection 0 (units ++ rest) = List.replicate units.length (!inSection) ++ outsideMask inSection 0 rest := by
  induction units with
  | nil => rfl
  | cons ch units ih =>
    have other : ch ≠ 60 := plain ch List.mem_cons_self
    have noBegin : kimiSectionBegin.isPrefixOf (ch :: (units ++ rest)) = false := by
      rw [show kimiSectionBegin = 60 :: kimiSectionBegin.tail from rfl, List.isPrefixOf]
      simp [other.symm]
    have noEnd : kimiSectionEnd.isPrefixOf (ch :: (units ++ rest)) = false := by
      rw [show kimiSectionEnd = 60 :: kimiSectionEnd.tail from rfl, List.isPrefixOf]
      simp [other.symm]
    rw [List.cons_append, outsideMask, noBegin, noEnd, if_neg Bool.false_ne_true, if_neg Bool.false_ne_true,
      ih fun c mem => plain c (List.mem_cons_of_mem _ mem)]
    rfl

/-- Behind the first unit a prefix of a token is plain. -/
theorem outsideMask_token (inSection : Bool) {token s rest : JsString} (known : token ∈ kimiTokens) (part : s <+: token) (some' : s ≠ [])
    (noBegin : matchesToken (s ++ rest) kimiSectionBegin = false) (noEnd : matchesToken (s ++ rest) kimiSectionEnd = false) :
    outsideMask inSection 0 (s ++ rest) = List.replicate s.length (!inSection) ++ outsideMask inSection 0 rest := by
  have each : ∀ token ∈ kimiTokens, lessThan ∉ token.tail := by decide
  obtain ⟨ch,units,rfl⟩ := List.exists_cons_of_ne_nil some'
  have plain : ∀ c ∈ units, c ≠ lessThan := by
    obtain ⟨more,is⟩ := part
    rintro _ mem rfl
    refine each token known ?_
    rw [← is]
    exact List.mem_append_left _ mem
  rw [matchesToken] at noBegin noEnd
  rw [List.cons_append] at noBegin noEnd ⊢
  rw [outsideMask, noBegin, noEnd, if_neg Bool.false_ne_true, if_neg Bool.false_ne_true, outsideMask_plain inSection plain]
  rfl

/-- A mark that is no section marker stands where none begins. -/
theorem markAt_other {s : JsString} {mark : Mark} (at' : markAt s = some mark) (notBegin : mark ≠ .sectionBegin) :
    matchesToken s kimiSectionBegin = false ∧ (mark ≠ .sectionEnd → matchesToken s kimiSectionEnd = false) := by
  unfold markAt at at'
  split_ifs at at' with held opens closes
  · cases at'
    exact absurd rfl notBegin
  · cases at'
    exact ⟨by simpa using opens,fun other => absurd rfl other⟩
  all_goals exact ⟨by simpa using opens,fun _ => by simpa using closes⟩

theorem markAt_held {s : JsString} (some' : s ≠ []) (at' : markAt s = none) : ∃ token ∈ kimiTokens, s <+: token ∧ s.length < token.length := by
  unfold markAt at at'
  split_ifs at at' with held
  · simp only [startsWithPartialToken, Bool.and_eq_true, decide_eq_true_eq, List.any_eq_true] at held
    obtain ⟨-,token,known,shorter,begins⟩ := held
    exact ⟨token,known,List.isPrefixOf_iff_prefix.mp begins,shorter⟩
  · obtain ⟨ch,rest,rfl⟩ := List.exists_cons_of_ne_nil some'
    cases at'

theorem outsideMask_marks {s tail : JsString} {marks : List Mark} (read : Marks s marks tail) (inSection : Bool) :
    outsideMask inSection 0 s = sectionMask tail inSection marks := by
  induction read generalizing inSection with
  | empty => rfl
  | @held s some' at' =>
    obtain ⟨token,known,part,shorter⟩ := markAt_held some' at'
    have apart : ∀ token ∈ kimiTokens, ∀ marker ∈ kimiTokens, marker.isPrefixOf token = true → marker.length = token.length := by decide
    have no : ∀ marker ∈ kimiTokens, matchesToken (s ++ []) marker = false := by
      intro marker is
      rw [List.append_nil, Bool.eq_false_iff]
      intro begins
      have inside := List.isPrefixOf_iff_prefix.mp begins
      have same := apart token known marker is (List.isPrefixOf_iff_prefix.mpr (inside.trans part))
      have bound := inside.length_le
      omega
    have whole := outsideMask_token inSection known part some' (no kimiSectionBegin (by simp [kimiTokens])) (no kimiSectionEnd (by simp [kimiTokens]))
    rw [List.append_nil] at whole
    rw [whole, sectionMask]
    exact List.append_nil _
  | @next s rest tail mark marks at' is later ih =>
    have other : mark ≠ .sectionBegin → mark ≠ .sectionEnd →
        outsideMask inSection 0 s = List.replicate mark.text.length (!inSection) ++ sectionMask tail inSection marks := by
      intro notBegin notEnd
      obtain ⟨noBegin,noEnd⟩ := markAt_other at' notBegin
      have noEnd := noEnd notEnd
      rw [is] at noBegin noEnd ⊢
      rw [← ih inSection]
      cases mark with
      | sectionBegin => exact absurd rfl notBegin
      | sectionEnd => exact absurd rfl notEnd
      | unit ch =>
        rw [matchesToken] at noBegin noEnd
        have one : (Mark.unit ch).text ++ rest = ch :: rest := rfl
        rw [one] at noBegin noEnd ⊢
        rw [outsideMask, noBegin, noEnd, if_neg Bool.false_ne_true, if_neg Bool.false_ne_true]
        rfl
      | callBegin => exact outsideMask_token inSection (by simp [kimiTokens] : kimiCallBegin ∈ kimiTokens) List.prefix_rfl (by decide) noBegin noEnd
      | argBegin => exact outsideMask_token inSection (by simp [kimiTokens] : kimiArgBegin ∈ kimiTokens) List.prefix_rfl (by decide) noBegin noEnd
      | callEnd => exact outsideMask_token inSection (by simp [kimiTokens] : kimiCallEnd ∈ kimiTokens) List.prefix_rfl (by decide) noBegin noEnd
    have skips : ∀ marker inside, kimiSectionBegin = marker ∨ kimiSectionEnd = marker →
        false :: outsideMask inside (marker.length - 1) (marker.tail ++ rest) =
          List.replicate marker.length false ++ outsideMask inside 0 rest := by
      rintro marker inside (rfl | rfl)
      · exact congrArg _ (outsideMask_marker inside kimiSectionBegin.tail rest)
      · exact congrArg _ (outsideMask_marker inside kimiSectionEnd.tail rest)
    cases mark with
    | sectionBegin =>
      have unfolded : s = 60 :: (kimiSectionBegin.tail ++ rest) := is
      have begins : kimiSectionBegin.isPrefixOf s = true := List.isPrefixOf_iff_prefix.mpr ⟨rest,is.symm⟩
      rw [unfolded] at begins ⊢
      rw [outsideMask, if_pos begins, skips kimiSectionBegin true (.inl rfl), ih true]
      rfl
    | sectionEnd =>
      have unfolded : s = 60 :: (kimiSectionEnd.tail ++ rest) := is
      have noBegin := (markAt_other at' (by decide)).1
      have ends : kimiSectionEnd.isPrefixOf s = true := List.isPrefixOf_iff_prefix.mpr ⟨rest,is.symm⟩
      rw [matchesToken] at noBegin
      rw [unfolded] at noBegin ends ⊢
      rw [outsideMask, noBegin, if_neg Bool.false_ne_true, if_pos ends, skips kimiSectionEnd false (.inr rfl), ih false]
      rfl
    | callBegin => exact other (by decide) (by decide)
    | argBegin => exact other (by decide) (by decide)
    | callEnd => exact other (by decide) (by decide)
    | unit ch => exact other (by simp) (by simp)

/-- No section is entered with a call still open. -/
def cleanStarts : Flags → List Mark → Prop
  | _, [] => True
  | flags, mark :: marks =>
      (flags.inSection = false → (flags.step mark).inSection = true → (flags.step mark).inCall = false) ∧
        cleanStarts (flags.step mark) marks

/-- Nothing follows but markers of calls and ends of sections. -/
def OnlyCallMarks (tail : JsString) (marks : List Mark) : Prop :=
  tail = [] ∧ ∀ mark ∈ marks, mark ≠ .sectionBegin ∧ ∀ ch, mark ≠ .unit ch

/- Where the marks are: outside a section, or in one in which a call is open or not. -/
inductive Place where
  | outside
  | inside (isOpen : Bool)

/-- A call ends only where it is open, and a section that ends on an open call is the last thing to be seen. -/
def Closes (tail : JsString) : Place → List Mark → Prop
  | _, [] => True
  | .outside, .sectionBegin :: marks => Closes tail (.inside false) marks
  | .outside, _ :: marks => Closes tail .outside marks
  | .inside isOpen, .sectionEnd :: marks => if isOpen then OnlyCallMarks tail marks else Closes tail .outside marks
  | .inside _, .callBegin :: marks => Closes tail (.inside true) marks
  | .inside isOpen, .callEnd :: marks => isOpen = true ∧ Closes tail (.inside false) marks
  | .inside isOpen, _ :: marks => Closes tail (.inside isOpen) marks

def Place.flags : Place → Flags
  | .outside => ⟨false,false⟩
  | .inside isOpen => ⟨true,isOpen⟩

theorem mask_cons {n : Nat} (some' : 0 < n) {a b : Bool} {one two : List Bool} :
    List.replicate n a ++ one = List.replicate n b ++ two ↔ a = b ∧ one = two := by
  constructor
  · intro same
    obtain ⟨first,rest⟩ := List.append_inj same (by simp)
    exact ⟨(List.replicate_inj.mp first).2.resolve_left (by omega),rest⟩
  · rintro ⟨rfl,rfl⟩
    rfl

/-- The masks agree and the sections start clean, from some flags on. -/
def Agrees (tail : JsString) (flags : Flags) (marks : List Mark) : Prop :=
  shownMask tail flags marks = sectionMask tail flags.inSection marks ∧ cleanStarts flags marks

/-- One mark: it is shown as it should be, it enters no section with an open call, and the rest agrees. -/
theorem agrees_cons (tail : JsString) (flags : Flags) (mark : Mark) (marks : List Mark) : Agrees tail flags (mark :: marks) ↔
    flags.shows mark = (match mark with | .sectionBegin => false | .sectionEnd => false | _ => !flags.inSection) ∧
      (flags.inSection = false → (flags.step mark).inSection = true → (flags.step mark).inCall = false) ∧
      Agrees tail (flags.step mark) marks := by
  have inSection : ∀ mark : Mark, mark ≠ .sectionBegin → mark ≠ .sectionEnd → (flags.step mark).inSection = flags.inSection := by
    intro mark notBegin notEnd
    cases mark with
    | sectionBegin => exact absurd rfl notBegin
    | sectionEnd => exact absurd rfl notEnd
    | callBegin => cases inside : flags.inSection <;> simp [Flags.step, inside]
    | argBegin => rfl
    | callEnd => cases inside : (flags.inSection && flags.inCall) <;> simp [Flags.step, inside]
    | unit ch => rfl
  have other : mark ≠ .sectionBegin → mark ≠ .sectionEnd →
      sectionMask tail flags.inSection (mark :: marks) =
        List.replicate mark.text.length (!flags.inSection) ++ sectionMask tail (flags.step mark).inSection marks := by
    intro notBegin notEnd
    rw [inSection mark notBegin notEnd]
    cases mark with
    | sectionBegin => exact absurd rfl notBegin
    | sectionEnd => exact absurd rfl notEnd
    | _ => rfl
  have positive := mark_pos mark
  rw [Agrees, Agrees, shownMask, cleanStarts]
  cases mark with
  | sectionBegin =>
    rw [sectionMask, show kimiSectionBegin.length = Mark.sectionBegin.text.length from rfl, mask_cons positive]
    exact ⟨fun ⟨⟨a,b⟩,c,d⟩ => ⟨a,c,b,d⟩,fun ⟨a,c,b,d⟩ => ⟨⟨a,b⟩,c,d⟩⟩
  | sectionEnd =>
    rw [sectionMask, show kimiSectionEnd.length = Mark.sectionEnd.text.length from rfl, mask_cons positive]
    exact ⟨fun ⟨⟨a,b⟩,c,d⟩ => ⟨a,c,b,d⟩,fun ⟨a,c,b,d⟩ => ⟨⟨a,b⟩,c,d⟩⟩
  | _ =>
    rw [other (by simp) (by simp), mask_cons positive]
    exact ⟨fun ⟨⟨a,b⟩,c,d⟩ => ⟨a,c,b,d⟩,fun ⟨a,c,b,d⟩ => ⟨⟨a,b⟩,c,d⟩⟩

/-- Outside a section a call left open hides every unit and spoils the next section. -/
theorem agrees_stale (tail : JsString) (marks : List Mark) : Agrees tail ⟨false,true⟩ marks ↔ OnlyCallMarks tail marks := by
  induction marks with
  | nil =>
    simp only [Agrees, shownMask, sectionMask, cleanStarts, OnlyCallMarks, and_true, List.not_mem_nil, false_implies, implies_true]
    cases tail with
    | nil => simp
    | cons ch tail => simp [List.replicate_succ]
  | cons mark marks ih =>
    have cons : OnlyCallMarks tail (mark :: marks) ↔ (mark ≠ .sectionBegin ∧ ∀ ch, mark ≠ .unit ch) ∧ OnlyCallMarks tail marks := by
      simp only [OnlyCallMarks, List.forall_mem_cons]
      tauto
    rw [agrees_cons, cons]
    cases mark with
    | sectionBegin => simp [Flags.step]
    | unit ch => simp [Flags.shows]
    | sectionEnd => simpa [Flags.step, Flags.shows] using ih
    | callBegin => simpa [Flags.step, Flags.shows] using ih
    | argBegin => simpa [Flags.step, Flags.shows] using ih
    | callEnd => simpa [Flags.step, Flags.shows] using ih

theorem agrees_iff (tail : JsString) (place : Place) (marks : List Mark) : Agrees tail place.flags marks ↔ Closes tail place marks := by
  induction marks generalizing place with
  | nil =>
    cases place with
    | outside => simp [Agrees, shownMask, sectionMask, cleanStarts, Closes, Place.flags]
    | inside isOpen => simp [Agrees, shownMask, sectionMask, cleanStarts, Closes, Place.flags]
  | cons mark marks ih =>
    rw [agrees_cons]
    cases place with
    | outside =>
      cases mark with
      | sectionBegin => simpa [Flags.step, Flags.shows, Place.flags, Closes] using ih (.inside false)
      | _ => simpa [Flags.step, Flags.shows, Place.flags, Closes] using ih .outside
    | inside isOpen =>
      cases mark with
      | sectionBegin => simpa [Flags.step, Flags.shows, Place.flags, Closes] using ih (.inside isOpen)
      | sectionEnd =>
        cases isOpen with
        | false => simpa [Flags.step, Flags.shows, Place.flags, Closes] using ih .outside
        | true => simpa [Flags.step, Flags.shows, Place.flags, Closes] using agrees_stale tail marks
      | callBegin => simpa [Flags.step, Flags.shows, Place.flags, Closes] using ih (.inside true)
      | argBegin => simpa [Flags.step, Flags.shows, Place.flags, Closes] using ih (.inside isOpen)
      | callEnd =>
        cases isOpen with
        | false => simp [Flags.shows, Place.flags, Closes]
        | true => simpa [Flags.step, Flags.shows, Place.flags, Closes] using ih (.inside false)
      | unit ch => simpa [Flags.step, Flags.shows, Place.flags, Closes] using ih (.inside isOpen)

section Repair
variable (parseJsonWithRepair : JsString → Option Json)

/-- Wherever the scan enters a section, no call is open. -/
def CleanStarts (text : JsString) : Prop :=
  ∀ mode s taken, Visits (consumeKimi parseJsonWithRepair) .initial text mode s → consumeKimi parseJsonWithRepair mode s = some taken →
    mode.kimiInSection = false → taken.mode.kimiInSection = true → taken.mode.kimiInCall = false

theorem cleanStarts_iff {s tail : JsString} {marks : List Mark} (read : Marks s marks tail) (mode : Mode) :
    (∀ n t taken, Visits (consumeKimi parseJsonWithRepair) mode s n t → consumeKimi parseJsonWithRepair n t = some taken →
      n.kimiInSection = false → taken.mode.kimiInSection = true → taken.mode.kimiInCall = false) ↔ cleanStarts mode.flags marks := by
  induction read generalizing mode with
  | empty =>
    refine ⟨fun _ => trivial,fun _ n t taken visited => ?_⟩
    obtain ⟨suffix,nonempty⟩ := visited.suffix
    exact absurd (List.suffix_nil.mp suffix) nonempty
  | @held s some' at' =>
    have none' := consumeKimi_held parseJsonWithRepair mode at'
    refine ⟨fun _ => trivial,fun _ n t taken visited decided => ?_⟩
    cases visited with
    | here =>
      rw [none'] at decided
      cases decided
    | later _ _ other _ _ _ decided' =>
      rw [none'] at decided'
      cases decided'
  | @next s rest tail mark marks at' is later ih =>
    obtain ⟨taken,takes,spec⟩ := consumeKimi_takes parseJsonWithRepair mode at'
    have dropped : s.drop taken.size = rest := by rw [spec.size, is, List.drop_left]
    have nonempty : s ≠ [] := by
      have positive := mark_pos mark
      rw [is, ← List.length_pos_iff, List.length_append]
      omega
    rw [cleanStarts, ← spec.flags, ← ih]
    constructor
    · intro clean
      refine ⟨fun outside inside => clean mode s taken (.here mode s nonempty) takes outside inside,fun n t other visited => ?_⟩
      exact clean n t other (.later mode s taken n t nonempty takes (dropped ▸ visited))
    · rintro ⟨first,clean⟩ n t other visited decided
      cases visited with
      | here =>
        rw [takes] at decided
        cases decided
        exact first
      | later _ _ between _ _ _ decided' visited' =>
        rw [takes] at decided'
        cases decided'
        exact clean n t other (dropped ▸ visited') decided

/-- Every unit outside the sections that belongs to no section marker is shown, no other one is, and no section is
    entered with a call open. -/
def ShowsAll (text : JsString) : Prop :=
  emitted parseJsonWithRepair text = outsideMask false 0 text ∧ CleanStarts parseJsonWithRepair text

/-- In every section of the text each end of a call closes an open one, and behind a section that ends while a call
    is open nothing is left to be shown and no section begins. -/
def ClosesCalls (text : JsString) : Prop := ∃ marks tail, Marks text marks tail ∧ Closes tail .outside marks

/-- What a Kimi stream shows, however it is cut, and when that is all of its text outside the sections. -/
theorem kimi_shows_iff (chunks : List JsString) :
    visibleText (healedEvents parseJsonWithRepair .kimi chunks) = pick (emitted parseJsonWithRepair chunks.flatten) chunks.flatten ∧
      (ShowsAll parseJsonWithRepair chunks.flatten ↔ ClosesCalls chunks.flatten) := by
  refine ⟨healed_visible parseJsonWithRepair chunks,?_⟩
  have same : ∀ marks tail, Marks chunks.flatten marks tail →
      (ShowsAll parseJsonWithRepair chunks.flatten ↔ Closes tail .outside marks) := by
    intro marks tail read
    rw [← agrees_iff, Agrees, ShowsAll, CleanStarts, cleanStarts_iff parseJsonWithRepair read .initial, emitted,
      emittedFuel_marks parseJsonWithRepair read (Nat.le_refl _), outsideMask_marks read]
    exact Iff.rfl
  constructor
  · intro shows
    obtain ⟨marks,tail,read⟩ := marks_exist chunks.flatten
    exact ⟨marks,tail,read,(same marks tail read).mp shows⟩
  · rintro ⟨marks,tail,read,closes⟩
    exact (same marks tail read).mpr closes

end Repair

/- A section that ends while its call is open, and an answer behind it. -/
def openCallAnswer : JsString :=
  js "<|tool_calls_section_begin|><|tool_call_begin|>functions.read:0<|tool_calls_section_end|>Done."

theorem answer_swallowed : visibleText (healedEvents (fun _ => none) .kimi [openCallAnswer]) = [] ∧
    pick (outsideMask false 0 openCallAnswer) openCallAnswer = js "Done." ∧ ¬ ShowsAll (fun _ => none) openCallAnswer := by
  refine ⟨by decide +kernel,by decide +kernel,fun shows => ?_⟩
  have differ : emitted (fun _ => none) openCallAnswer ≠ outsideMask false 0 openCallAnswer := by decide +kernel
  exact differ shows.1

end StreamMarkupHealing
