import OpenAgents.Streams.TokenHold
import OpenAgents.Streams.XmlHold

/- Events up to the merging of neighbours, and that collecting them loses nothing. -/
namespace StreamMarkupHealing
open JsText JsJson HeldScanner

/- Text joins text, and thinking joins thinking. -/
def pushEvent : Event → List Event → List Event
  | .text a, .text b :: rest => .text (a ++ b) :: rest
  | .thinking a, .thinking b :: rest => .thinking (a ++ b) :: rest
  | event, rest => event :: rest

def mergeEvents (events : List Event) : List Event := events.foldr pushEvent []

/- Merged alike, whatever follows. -/
def SameMerged (one two : List Event) : Prop := ∀ rest, one.foldr pushEvent rest = two.foldr pushEvent rest

theorem SameMerged.refl (events : List Event) : SameMerged events events := fun _ => rfl

theorem SameMerged.trans {one two three : List Event} (first : SameMerged one two)
    (second : SameMerged two three) : SameMerged one three :=
  fun rest => (first rest).trans (second rest)

theorem SameMerged.append {one two one' two' : List Event} (first : SameMerged one two)
    (second : SameMerged one' two') : SameMerged (one ++ one') (two ++ two') := by
  intro rest
  rw [List.foldr_append, List.foldr_append, second rest]
  exact first _

theorem SameMerged.merge {one two : List Event} (same : SameMerged one two) : mergeEvents one = mergeEvents two :=
  same []

theorem textEvents_append (a b : JsString) : SameMerged (textEvents (a ++ b)) (textEvents a ++ textEvents b) := by
  intro rest
  cases a with
  | nil => rfl
  | cons c a =>
    cases b with
    | nil => simp [textEvents]
    | cons d b =>
      cases rest with
      | nil => simp [textEvents, pushEvent]
      | cons event rest =>
        cases event with
        | text t => simp [textEvents, pushEvent]
        | thinking t => simp [textEvents, pushEvent]
        | toolCall call => simp [textEvents, pushEvent]

theorem thinkingEvents_append (a b : JsString) :
    SameMerged (thinkingEvents (a ++ b)) (thinkingEvents a ++ thinkingEvents b) := by
  intro rest
  cases a with
  | nil => rfl
  | cons c a =>
    cases b with
    | nil => simp [thinkingEvents]
    | cons d b =>
      cases rest with
      | nil => simp [thinkingEvents, pushEvent]
      | cons event rest =>
        cases event with
        | text t => simp [thinkingEvents, pushEvent]
        | thinking t => simp [thinkingEvents, pushEvent]
        | toolCall call => simp [thinkingEvents, pushEvent]

/- Collecting -/

def Output.events : Output → List Event
  | .clean text => textEvents text
  | .thinking text => thinkingEvents text
  | .toolCall call => [.toolCall call]
  | .nothing | .flushClean | .flushThinking => []

/- Everything put so far, flushed or not. -/
def Pending.all (p : Pending) : List Event := p.events ++ textEvents p.clean ++ thinkingEvents p.thinking

theorem flushClean_events (p : Pending) :
    p.flushClean = { p with events := p.events ++ textEvents p.clean, clean := [] } := by
  unfold Pending.flushClean textEvents
  split
  · rename_i empty
    rw [List.append_nil, ← List.eq_nil_of_length_eq_zero empty]
  · rfl

theorem flushThinking_events (p : Pending) :
    p.flushThinking = { p with events := p.events ++ thinkingEvents p.thinking, thinking := [] } := by
  unfold Pending.flushThinking thinkingEvents
  split
  · rename_i empty
    rw [List.append_nil, ← List.eq_nil_of_length_eq_zero empty]
  · rfl

theorem collectEvents_all (outputs : List Output) :
    collectEvents outputs = (outputs.foldl Pending.put ⟨[],[],[]⟩).all := by
  rw [collectEvents, flushClean_events, flushThinking_events]
  rfl

/- Inside a thinking block no text is pending, and outside no thinking. -/
def Pending.Fits (p : Pending) (mode : Mode) : Prop :=
  (mode.thinkingCloseTag = [] → p.thinking = []) ∧ (mode.thinkingCloseTag ≠ [] → p.clean = [])

/- What a turn may put, by the thinking block it is in before and after. -/
def Suits (mode : Mode) (output : Output) (after : Mode) : Prop :=
  match output with
  | .nothing | .clean _ | .toolCall _ => mode.thinkingCloseTag = [] ∧ after.thinkingCloseTag = []
  | .thinking _ => mode.thinkingCloseTag ≠ [] ∧ after.thinkingCloseTag ≠ []
  | .flushClean => mode.thinkingCloseTag = []
  | .flushThinking => mode.thinkingCloseTag ≠ []

theorem put_fits {p : Pending} {mode after : Mode} {output : Output} (fits : p.Fits mode)
    (suits : Suits mode output after) :
    (p.put output).Fits after ∧ SameMerged (p.put output).all (p.all ++ output.events) := by
  cases output with
  | nothing =>
    have no_thinking := fits.1 suits.1
    refine ⟨⟨fun _ => no_thinking,fun inside => absurd suits.2 inside⟩,?_⟩
    simpa [Output.events, Pending.put] using SameMerged.refl p.all
  | clean text =>
    have no_thinking := fits.1 suits.1
    refine ⟨⟨fun _ => no_thinking,fun inside => absurd suits.2 inside⟩,?_⟩
    have joined := (SameMerged.refl p.events).append (textEvents_append p.clean text)
    simpa [Pending.all, Pending.put, Output.events, no_thinking, thinkingEvents] using joined
  | thinking text =>
    have no_clean := fits.2 suits.1
    refine ⟨⟨fun outside => absurd outside suits.2,fun _ => no_clean⟩,?_⟩
    have joined := (SameMerged.refl p.events).append (thinkingEvents_append p.thinking text)
    simpa [Pending.all, Pending.put, Output.events, no_clean, textEvents] using joined
  | toolCall call =>
    have no_thinking := fits.1 suits.1
    simp only [Pending.put, flushClean_events]
    refine ⟨⟨fun _ => no_thinking,fun inside => absurd suits.2 inside⟩,?_⟩
    have same := SameMerged.refl (p.events ++ textEvents p.clean ++ [.toolCall call])
    simpa [Pending.all, Output.events, no_thinking, thinkingEvents, textEvents] using same
  | flushClean =>
    have no_thinking := fits.1 suits
    simp only [Pending.put, flushClean_events]
    refine ⟨⟨fun _ => no_thinking,fun _ => rfl⟩,?_⟩
    have same := SameMerged.refl (p.events ++ textEvents p.clean)
    simpa [Pending.all, Output.events, no_thinking, thinkingEvents, textEvents] using same
  | flushThinking =>
    have no_clean := fits.2 suits
    simp only [Pending.put, flushThinking_events]
    refine ⟨⟨fun _ => rfl,fun _ => no_clean⟩,?_⟩
    have same := SameMerged.refl (p.events ++ thinkingEvents p.thinking)
    simpa [Pending.all, Output.events, no_clean, thinkingEvents, textEvents] using same

variable {decision : Decision CodeUnit Mode Output} {holds : Mode → Prop} {mode : Mode} {s : JsString}
  {scanned : Scan CodeUnit Mode Output}

/-- A scan that suits the modes it goes through puts all events of its outputs. -/
theorem scan_puts (step : ∀ mode s taken, holds mode → decision mode s = some taken →
      holds taken.mode ∧ Suits mode taken.output taken.mode) (run : Scans decision mode s scanned) :
    ∀ {p : Pending}, holds mode → p.Fits mode →
      SameMerged (scanned.outputs.foldl Pending.put p).all (p.all ++ scanned.outputs.flatMap Output.events) := by
  induction run with
  | empty mode =>
    intro p _ _
    simpa using SameMerged.refl p.all
  | hold mode s held =>
    intro p _ _
    simpa using SameMerged.refl p.all
  | take mode s taken after nonempty decided rest ih =>
    intro p kept fits
    obtain ⟨kept_after,suits⟩ := step mode s taken kept decided
    obtain ⟨fits_after,put⟩ := put_fits fits suits
    have later := ih kept_after fits_after
    have joined := later.trans (put.append (SameMerged.refl _))
    simpa using joined

theorem collectEvents_scan (step : ∀ mode s taken, holds mode → decision mode s = some taken →
      holds taken.mode ∧ Suits mode taken.output taken.mode) (run : Scans decision mode s scanned) (kept : holds mode) : SameMerged (collectEvents scanned.outputs) (scanned.outputs.flatMap Output.events) := by
  rw [collectEvents_all]
  exact scan_puts step run kept ⟨fun _ => rfl,fun _ => rfl⟩

section Repair
variable (parseJsonWithRepair : JsString → Option Json)

def OutsideThinking (mode : Mode) : Prop := mode.thinkingCloseTag = []

variable {mode : Mode} {s : JsString} {taken : Taken Mode Output}

theorem consumeKimi_suits (outside : OutsideThinking mode) (decided : consumeKimi parseJsonWithRepair mode s = some taken) :
    OutsideThinking taken.mode ∧ Suits mode taken.output taken.mode := by
  unfold consumeKimi at decided
  cases s with
  | nil => cases decided
  | cons ch rest =>
    split_ifs at decided
    all_goals
      cases decided
      exact ⟨outside,outside,outside⟩

theorem takeTag_after {V : Type} {found : Option (V × JsString)} {after : V → Mode × Output}
    (tag : takeTag found s after = some taken) : ∃ v, (taken.mode, taken.output) = after v := by
  rw [takeTag, Option.map_eq_some_iff] at tag
  obtain ⟨⟨v,rest⟩,-,rfl⟩ := tag
  exact ⟨v,rfl⟩

theorem passXmlUnit_suits (outside : OutsideThinking mode) (ch : CodeUnit) :
    OutsideThinking (passXmlUnit mode ch).1 ∧ Suits mode (passXmlUnit mode ch).2 (passXmlUnit mode ch).1 := by
  unfold passXmlUnit
  cases state : mode.xmlState with
  | parameter invokeName args paramName isString value =>
    simp only
    split
    · exact ⟨outside,outside,outside⟩
    · exact ⟨outside,outside,outside⟩
  | idle => exact ⟨outside,outside,outside⟩
  | inSection => exact ⟨outside,outside,outside⟩
  | invoke name args => exact ⟨outside,outside,outside⟩

theorem consumeXmlTool_suits (outside : OutsideThinking mode)
    (decided : consumeXmlTool parseJsonWithRepair mode s = some taken) :
    OutsideThinking taken.mode ∧ Suits mode taken.output taken.mode := by
  have tagged {V : Type} {found : Option (V × JsString)} {state : V → XmlToolState} (output : V → Output)
      {ended : Bool} (plain : ∀ v m, m.thinkingCloseTag = [] → Suits mode (output v) m)
      (tag : takeTag found s (fun v =>
        ({ mode with xmlState := state v, sectionTerminated := ended }, output v)) = some taken) :
      OutsideThinking taken.mode ∧ Suits mode taken.output taken.mode := by
    obtain ⟨v,same⟩ := takeTag_after tag
    obtain ⟨same_mode,same_output⟩ := Prod.mk.inj same
    rw [same_mode, same_output]
    exact ⟨outside,plain v _ outside⟩
  have quiet : ∀ m, m.thinkingCloseTag = [] → Suits mode .nothing m := fun m after => ⟨outside,after⟩
  unfold consumeXmlTool at decided
  cases found : matchXmlTag parseJsonWithRepair mode s with
  | some tag =>
    rw [found] at decided
    cases decided
    unfold matchXmlTag at found
    cases state : mode.xmlState with
    | idle =>
      simp only [state] at found
      exact tagged (fun _ => .nothing) (fun _ => quiet) found
    | inSection =>
      simp only [state] at found
      rcases Option.or_eq_some_iff.mp found with closes | ⟨-,opened⟩
      · exact tagged (fun _ => .nothing) (fun _ => quiet) closes
      · exact tagged (fun _ => .nothing) (fun _ => quiet) opened
    | invoke name args =>
      simp only [state] at found
      rcases Option.or_eq_some_iff.mp found with closes | ⟨-,opened⟩
      · exact tagged (fun _ => .toolCall (finalizeXmlToolCall name args))
          (fun _ m after => ⟨outside,after⟩) closes
      · exact tagged (fun _ => .nothing) (fun _ => quiet) opened
    | parameter invokeName args paramName isString value =>
      simp only [state] at found
      exact tagged (fun _ => .nothing) (fun _ => quiet) found
  | none =>
    simp only [found] at decided
    split at decided
    · cases decided
    · cases s with
      | nil => cases decided
      | cons ch rest =>
        cases decided
        exact passXmlUnit_suits outside ch

end Repair

theorem consumePlainThinking_suits {mode : Mode} {s : JsString} {taken : Taken Mode Output}
    (decided : consumePlainThinking mode s = some taken) : Suits mode taken.output taken.mode := by
  rcases consumePlainThinking_cases decided with ⟨inside,-,rfl⟩ | ⟨inside,-,-,ch,-,rfl⟩ |
    ⟨outside,tag,-,rfl⟩ | ⟨outside,-,-,ch,-,rfl⟩
  · exact inside
  · exact ⟨inside,inside⟩
  · exact outside
  · exact ⟨outside,outside⟩

end StreamMarkupHealing
