import OpenAgents.Lib.Runs
import OpenAgents.Tui.Emitters
import OpenAgents.Tui.Outcomes

/- Sessions of one renderer with one terminal: the frames they are about, the render behind each event, and
   what every render leaves of the state whatever it paints. -/
namespace TuiSessions
open JsText TextReplace TerminalScreen TuiRenderer TuiEmitters TuiOutcomes

/- The lines a frame is diffed, written and kept as. -/
def frameLines (host : Host) (frame : Frame) : List JsString := (compose host frame.rendered).2

/-- No overlay, and no line that is an image. -/
structure Plain (host : Host) (frame : Frame) : Prop where
  composited : frame.composited = none
  hasOverlay : frame.hasOverlay = false
  imageFree : ∀ line ∈ frame.rendered, host.isImageLine (replaceAll line cursorMarker []) = false

instance (host : Host) (frame : Frame) : Decidable (Plain host frame) :=
  decidable_of_iff (frame.composited = none ∧ frame.hasOverlay = false ∧
      ∀ line ∈ frame.rendered, host.isImageLine (replaceAll line cursorMarker []) = false)
    ⟨fun ⟨composited,hasOverlay,imageFree⟩ => ⟨composited,hasOverlay,imageFree⟩,
      fun plain => ⟨plain.composited,plain.hasOverlay,plain.imageFree⟩⟩

section frames
variable {host : Host} {frame : Frame}

theorem terminatorFor_some {line : JsString} : terminatorFor line ≠ [] := by
  unfold terminatorFor
  split
  · exact List.append_ne_nil_of_right_ne_nil _ (by simp)
  · simp [segmentReset]

theorem frameLines_eq : frameLines host frame = frame.rendered.map (composeLine host) := by
  simp [frameLines, compose, extractCursorPosition, composeLine, Function.comp_def]

theorem mem_frameLines {line : JsString} (mem : line ∈ frameLines host frame) :
    ∃ own ∈ frame.rendered, line = composeLine host own := by
  rw [frameLines_eq] at mem
  obtain ⟨own,inside,is⟩ := List.mem_map.mp mem
  exact ⟨own,inside,is.symm⟩

/-- A line is never kept empty: it ends in its reset. -/
theorem fit_some {line : JsString} (some' : line ≠ []) : fitLineToWidth host line ≠ [] := by
  unfold fitLineToWidth
  split
  · exact some'
  · split
    · exact some'
    · exact List.append_ne_nil_of_right_ne_nil _ terminatorFor_some

theorem noEmpty_frameLines (plain : Plain host frame) : NoEmpty (frameLines host frame) := by
  intro line mem
  obtain ⟨own,inside,is⟩ := mem_frameLines mem
  rw [is, composeLine]
  apply fit_some
  rw [applyLineReset, plain.imageFree own inside, if_neg (by simp)]
  exact List.append_ne_nil_of_right_ne_nil _ terminatorFor_some

/-- The cursor is in the visible window of the frame. -/
theorem inside_frameLines : Inside host (frameLines host frame) (compose host frame.rendered).1 := by
  intro pos found
  have size : (frameLines host frame).length = frame.rendered.length := by rw [frameLines_eq, List.length_map]
  simp only [compose, extractCursorPosition] at found
  obtain ⟨row,last,is⟩ := Option.map_eq_some_iff.mp found
  have mem := List.mem_of_getLast? last
  simp only [List.mem_filter, List.mem_range, Bool.and_eq_true, decide_eq_true_eq] at mem
  rw [size, ← is]
  exact ⟨mem.2.1,mem.1⟩

end frames

/- The renderer and the frame of the render an event makes, if it makes one. -/
def rendering {host : Host} (session : Session host) : Event → Option (Tui × Frame)
  | .doRender frame => some (session.tui, frame)
  | .refreshNativeScrollbackIfDirty frame allowUnknownViewport =>
      if session.tui.nativeScrollbackDirty &&
          canReplayNativeScrollbackAtCheckpoint host (frame.isNativeViewportAtBottom .checkpoint) allowUnknownViewport then
        some (prepareForcedRender host session.tui frame.isNativeViewportAtBottom true allowUnknownViewport, frame)
      else none
  | _ => none

/- A check of the render an event makes. -/
def OfRender {host : Host} (check : Session host → Tui → Frame → Prop) (session : Session host) (event : Event) : Prop :=
  ∀ made ∈ rendering session event, check session made.1 made.2

instance {host : Host} {check : Session host → Tui → Frame → Prop} [∀ session s frame, Decidable (check session s frame)]
    (session : Session host) (event : Event) : Decidable (OfRender check session event) :=
  inferInstanceAs (Decidable (∀ made ∈ rendering session event, check session made.1 made.2))

/-- The marks that a request or a setting changes, and nothing that the account is kept in. -/
structure SameAccount (s other : Tui) : Prop where
  previousLines : other.previousLines = s.previousLines
  previousWidth : other.previousWidth = s.previousWidth
  previousHeight : other.previousHeight = s.previousHeight
  hardwareCursorRow : other.hardwareCursorRow = s.hardwareCursorRow
  viewportTopRow : other.viewportTopRow = s.viewportTopRow
  maxLinesRendered : other.maxLinesRendered = s.maxLinesRendered
  scrollbackHighWater : other.scrollbackHighWater = s.scrollbackHighWater
  nativeScrollbackDirty : other.nativeScrollbackDirty = s.nativeScrollbackDirty
  hasEverRendered : other.hasEverRendered = s.hasEverRendered

section steps
variable {host : Host} {session : Session host}

/-- An event is a render of the same account, or only sets marks. -/
theorem step_cases (event : Event) :
    (∃ s frame, rendering session event = some (s, frame) ∧ SameAccount session.tui s ∧
      step session event = session.write (doRender host s frame)) ∨
    (rendering session event = none ∧ SameAccount session.tui (step session event).tui ∧
      (step session event).terminal = session.terminal) := by
  cases event with
  | requestRender atBottom force clearScrollback allowUnknownViewportMutation =>
    right
    refine ⟨rfl,?_,rfl⟩
    cases force with
    | true => exact ⟨rfl,rfl,rfl,rfl,rfl,rfl,rfl,rfl,rfl⟩
    | false => exact ⟨rfl,rfl,rfl,rfl,rfl,rfl,rfl,rfl,rfl⟩
  | setClearOnShrink enabled => exact Or.inr ⟨rfl,⟨rfl,rfl,rfl,rfl,rfl,rfl,rfl,rfl,rfl⟩,rfl⟩
  | setEagerNativeScrollbackRebuild enabled => exact Or.inr ⟨rfl,⟨rfl,rfl,rfl,rfl,rfl,rfl,rfl,rfl,rfl⟩,rfl⟩
  | doRender frame => exact Or.inl ⟨session.tui,frame,rfl,⟨rfl,rfl,rfl,rfl,rfl,rfl,rfl,rfl,rfl⟩,rfl⟩
  | refreshNativeScrollbackIfDirty frame allowUnknownViewport =>
    rw [step, refreshNativeScrollbackIfDirty, rendering]
    split
    · exact Or.inl ⟨_,frame,rfl,⟨rfl,rfl,rfl,rfl,rfl,rfl,rfl,rfl,rfl⟩,rfl⟩
    · exact Or.inr ⟨rfl,⟨rfl,rfl,rfl,rfl,rfl,rfl,rfl,rfl,rfl⟩,rfl⟩

end steps

/- The size the renderer has seen is the size the terminal has. -/
def Sized (host : Host) (s : Tui) : Prop :=
  (s.previousWidth = 0 ∨ s.previousWidth = host.columns) ∧ (s.previousHeight = 0 ∨ s.previousHeight = host.rows)

section render
variable {host : Host} {s : Tui} {frame : Frame} {intent : RenderIntent} {top : Nat} {cursorRow : Int}

theorem SameAccount.sized {other : Tui} (same : SameAccount s other) (sized : Sized host s) : Sized host other := by
  rw [Sized, same.previousWidth, same.previousHeight]
  exact sized

theorem ordinary_planning (single : host.isMultiplexerSession = false) (plain : Plain host frame) (sized : Sized host s) :
    Ordinary host frame (planning host s frame) where
  multiplexer := single
  overlay := plain.hasOverlay
  width := by
    rcases sized.1 with none' | same
    · simp [planning, none']
    · simp [planning, same]
  height := by
    rcases sized.2 with none' | same
    · simp [planning, none']
    · simp [planning, same]

theorem planning_lines (plain : Plain host frame) : (planning host s frame).newLines = frameLines host frame := by
  rw [planning, plain.composited]
  rfl

/-- The marks after an emitter that commits: the size is the terminal's, the others are as before. -/
structure Committed (host : Host) (s other : Tui) : Prop where
  nativeScrollbackDirty : other.nativeScrollbackDirty = s.nativeScrollbackDirty
  hasEverRendered : other.hasEverRendered = s.hasEverRendered
  previousWidth : other.previousWidth = host.columns
  previousHeight : other.previousHeight = host.rows

variable {lines : List JsString} {cursorPos : Option CursorPos}

theorem emitFullPaint_committed {clearViewport clearScrollback : Bool} :
    Committed host s (emitFullPaint host s lines cursorPos clearViewport clearScrollback).2 := by
  cases clearScrollback with
  | true => exact ⟨rfl,rfl,rfl,rfl⟩
  | false => exact ⟨rfl,rfl,rfl,rfl⟩

theorem emitViewportRepaint_committed : Committed host s (emitViewportRepaint host s lines cursorPos).2 := ⟨rfl,rfl,rfl,rfl⟩

theorem emitAppendTail_marks {start : Nat} :
    (emitAppendTail host s lines start top cursorRow).2.nativeScrollbackDirty = s.nativeScrollbackDirty ∧
      (emitAppendTail host s lines start top cursorRow).2.hasEverRendered = s.hasEverRendered := by
  unfold emitAppendTail
  split
  · exact ⟨rfl,rfl⟩
  · exact ⟨rfl,rfl⟩

theorem emitShrink_committed : Committed host s (emitShrink host s lines cursorPos cursorRow top).2 := by
  by_cases none' : s.previousLines.length - lines.length = 0
  · rw [emitShrink, if_pos none']
    exact ⟨rfl,rfl,rfl,rfl⟩
  · by_cases many : host.rows < s.previousLines.length - lines.length
    · rw [emitShrink, if_neg none', if_pos many]
      exact emitViewportRepaint_committed
    · rw [emitShrink, if_neg none', if_neg many]
      exact ⟨rfl,rfl,rfl,rfl⟩

theorem emitDiff_committed {first last : Nat} {appendedLines : Bool} :
    Committed host s (emitDiff host s lines cursorPos first last appendedLines top cursorRow).2 := by
  unfold emitDiff
  dsimp only
  split
  · exact ⟨rfl,rfl,rfl,rfl⟩
  · exact ⟨rfl,rfl,rfl,rfl⟩

/-- A cursor that is only moved. -/
theorem writeCursorPosition_moves {totalLines : Nat} :
    ∃ row, (writeCursorPosition s cursorPos totalLines).2 = { s with hardwareCursorRow := row } := by
  unfold writeCursorPosition
  split
  · exact ⟨s.hardwareCursorRow,rfl⟩
  · exact ⟨_,rfl⟩

/- Whether an intent replays the whole frame over cleared saved lines. -/
def replays : RenderIntent → Bool
  | .sessionReplace => true
  | .historyRebuild => true
  | .overlayRebuild => true
  | _ => false

/-- The marks after a frame was executed. Only a dropped frame commits nothing. -/
structure Executed (host : Host) (s other : Tui) (intent : RenderIntent) : Prop where
  nativeScrollbackDirty : other.nativeScrollbackDirty = (s.nativeScrollbackDirty && !replays intent)
  hasEverRendered : other.hasEverRendered = (s.hasEverRendered || intent == .initial)
  sized : Sized host s → Sized host other

theorem Committed.executed {other : Tui} (committed : Committed host s other) (live : replays intent = false)
    (later : intent ≠ .initial) : Executed host s other intent where
  nativeScrollbackDirty := by rw [committed.nativeScrollbackDirty, live, Bool.not_false, Bool.and_true]
  hasEverRendered := by rw [committed.hasEverRendered, beq_eq_false_iff_ne.mpr later, Bool.or_false]
  sized := fun _ => ⟨Or.inr committed.previousWidth,Or.inr committed.previousHeight⟩

theorem replay_executed {cleared other : Tui} (committed : Committed host cleared other) (replay : replays intent = true)
    (clean : cleared.nativeScrollbackDirty = false) (same : cleared.hasEverRendered = s.hasEverRendered) :
    Executed host s other intent where
  nativeScrollbackDirty := by rw [committed.nativeScrollbackDirty, clean, replay, Bool.not_true, Bool.and_false]
  hasEverRendered := by
    have later : intent ≠ .initial := by
      intro first
      rw [first] at replay
      contradiction
    rw [committed.hasEverRendered, same, beq_eq_false_iff_ne.mpr later, Bool.or_false]
  sized := fun _ => ⟨Or.inr committed.previousWidth,Or.inr committed.previousHeight⟩

theorem execute_executed : Executed host s (execute host s frame intent top cursorRow).2 intent := by
  cases intent with
  | noop =>
    obtain ⟨row,moved⟩ := @writeCursorPosition_moves s (compose host (frame.composited.getD frame.rendered)).1
      (compose host (frame.composited.getD frame.rendered)).2.length
    apply Committed.executed _ rfl (by simp)
    simp only [execute, moved]
    exact ⟨rfl,rfl,rfl,rfl⟩
  | initial =>
    have committed := @emitFullPaint_committed host s (compose host (frame.composited.getD frame.rendered)).2
      (compose host (frame.composited.getD frame.rendered)).1 true false
    have live : replays .initial = false := rfl
    constructor
    · rw [live, Bool.not_false, Bool.and_true]
      exact committed.nativeScrollbackDirty
    · simp [execute]
    · exact fun _ => ⟨Or.inr committed.previousWidth,Or.inr committed.previousHeight⟩
  | sessionReplace => exact replay_executed emitFullPaint_committed rfl rfl rfl
  | historyRebuild => exact replay_executed emitFullPaint_committed rfl rfl rfl
  | overlayRebuild =>
    have painted := @emitFullPaint_committed host { s with nativeScrollbackDirty := false } (compose host frame.rendered).2 none
      true (!host.isMultiplexerSession)
    exact replay_executed emitViewportRepaint_committed rfl painted.nativeScrollbackDirty painted.hasEverRendered
  | viewportRepaint appendFrom =>
    cases appendFrom with
    | none => exact emitViewportRepaint_committed.executed rfl (by simp)
    | some start =>
      have tail := @emitAppendTail_marks host s top cursorRow
        (compose host (frame.composited.getD frame.rendered)).2 start
      have painted := @emitViewportRepaint_committed host
        (emitAppendTail host s (compose host (frame.composited.getD frame.rendered)).2 start top cursorRow).2
        (compose host (frame.composited.getD frame.rendered)).2 (compose host (frame.composited.getD frame.rendered)).1
      apply Committed.executed _ rfl (by simp)
      exact ⟨painted.nativeScrollbackDirty.trans tail.1,painted.hasEverRendered.trans tail.2,painted.previousWidth,
        painted.previousHeight⟩
  | deferredShrink paddedLength => exact emitViewportRepaint_committed.executed rfl (by simp)
  | deferredMutation =>
    exact ⟨by simp [execute, replays],by simp [execute],fun sized => sized⟩
  | shrink => exact emitShrink_committed.executed rfl (by simp)
  | diff firstChanged lastChanged appendedLines => exact emitDiff_committed.executed rfl (by simp)

end render

end TuiSessions
