import OpenAgents.Tui.Sessions

/- The screen after a render. The rows and the cursor are those of the frame after every render of a run in
   which no frame is cut down in place from one that overflowed the screen. -/
namespace FrameShown
open JsText TextReplace TerminalScreen TuiRenderer TuiEmitters TuiOutcomes TuiSessions CheckedRuns

section intents
variable {host : Host} {s : Tui} {t : Terminal CodeUnit host.rows} {frame : Frame} {top : Nat} {cursorRow : Int}

def frameCursor (host : Host) (frame : Frame) : Option CursorPos := (compose host frame.rendered).1

theorem execute_shrink (plain : Plain host frame) : execute host s frame .shrink top cursorRow =
    emitShrink host s (frameLines host frame) (frameCursor host frame) cursorRow top := by
  rw [execute, plain.composited]
  rfl

theorem execute_diff (plain : Plain host frame) {first last : Nat} {appendedLines : Bool} :
    execute host s frame (.diff first last appendedLines) top cursorRow =
      emitDiff host s (frameLines host frame) (frameCursor host frame) first last appendedLines top cursorRow := by
  rw [execute, plain.composited]
  rfl

theorem execute_repaint (plain : Plain host frame) : execute host s frame (.viewportRepaint none) top cursorRow =
    emitViewportRepaint host s (frameLines host frame) (frameCursor host frame) := by
  rw [execute, plain.composited]
  rfl

theorem execute_repaint_tail (plain : Plain host frame) {start : Nat} :
    execute host s frame (.viewportRepaint (some start)) top cursorRow =
      ((emitAppendTail host s (frameLines host frame) start top cursorRow).1 ++
        (emitViewportRepaint host (emitAppendTail host s (frameLines host frame) start top cursorRow).2
          (frameLines host frame) (frameCursor host frame)).1,
      (emitViewportRepaint host (emitAppendTail host s (frameLines host frame) start top cursorRow).2
          (frameLines host frame) (frameCursor host frame)).2) := by
  rw [execute, plain.composited]
  rfl

theorem execute_replay (plain : Plain host frame) (single : host.isMultiplexerSession = false) :
    execute host s frame .historyRebuild top cursorRow =
      emitFullPaint host { s with nativeScrollbackDirty := false } (frameLines host frame) (frameCursor host frame) true true := by
  rw [execute, plain.composited, single]
  rfl

theorem execute_replace (plain : Plain host frame) (single : host.isMultiplexerSession = false) :
    execute host s frame .sessionReplace top cursorRow =
      emitFullPaint host { s with clearScrollbackOnNextRender := false, nativeScrollbackDirty := false }
        (frameLines host frame) (frameCursor host frame) true true := by
  rw [execute, plain.composited, single]
  rfl

theorem execute_initial (plain : Plain host frame) : execute host s frame .initial top cursorRow =
    ((emitFullPaint host s (frameLines host frame) (frameCursor host frame) true false).1,
      { (emitFullPaint host s (frameLines host frame) (frameCursor host frame) true false).2 with hasEverRendered := true }) := by
  rw [execute, plain.composited]
  rfl

theorem execute_noop (plain : Plain host frame) : execute host s frame .noop top cursorRow =
    ((writeCursorPosition s (frameCursor host frame) (frameLines host frame).length).1,
      { (writeCursorPosition s (frameCursor host frame) (frameLines host frame).length).2 with
        viewportTopRow := s.maxLinesRendered - host.rows
        previousWidth := host.columns
        previousHeight := host.rows }) := by
  rw [execute, plain.composited]
  rfl

end intents

section painted
variable {host : Host} {s : Tui} {t : Terminal CodeUnit host.rows} {lines : List JsString} {cursorPos : Option CursorPos}

/-- A frame that is the previous one: only the cursor moves. -/
theorem noop_paints (synced : Synced host s t) (inside : Inside host lines cursorPos) (same : lines = s.previousLines) :
    Paints host t ((writeCursorPosition s cursorPos lines.length).1,
      { (writeCursorPosition s cursorPos lines.length).2 with
        viewportTopRow := s.maxLinesRendered - host.rows
        previousWidth := host.columns
        previousHeight := host.rows }) lines t.scrolled := by
  have top := synced.top
  have cursor := synced.cursor
  have start : s.hardwareCursorRow = (lines.length - host.rows : Nat) + t.row := by rw [cursor, top, same]
  have max' : s.maxLinesRendered - host.rows = lines.length - host.rows := by rw [synced.rendered, same]
  by_cases still : (cursorPos.isNone || lines.length == 0) = true
  · rw [writeCursorPosition, if_pos still]
    constructor
    · constructor
      · exact synced.rendered
      · exact max'.trans (by rw [same])
      · simp only [run_hideCursor, max']
        exact start
      · exact synced.screen
    · exact same.symm
    · rfl
  · obtain ⟨rows,kept,row⟩ := @run_cursorControl host s t lines cursorPos s.hardwareCursorRow inside start
    have whole : ∀ seq : List (Control CodeUnit), run (visibleWidth host) t (hideCursor ++ [.setMode 2026] ++ seq ++ [.resetMode 2026]) =
        run (visibleWidth host) t seq := by
      intro seq
      rw [run_append, run_append]
      rfl
    rw [writeCursorPosition, if_neg still]
    constructor
    · constructor
      · exact synced.rendered
      · exact max'.trans (by rw [same])
      · simp only [whole, max']
        exact row
      · simp only [whole]
        exact rows.trans synced.screen
    · exact same.symm
    · simp only [whole]
      exact kept

theorem front_of_trailing {previous : List JsString} {first last : Nat} (facts : DiffFacts previous lines first last)
    (trailing : lines.length ≤ first) : lines <+: previous ∧ lines.length < previous.length := by
  have same := facts.same
  have known := facts.known
  have fresh := facts.fresh
  rw [List.take_of_length_le trailing] at same
  constructor
  · rw [same]
    exact List.take_prefix first previous
  · omega

/-- Whatever of the frame is rewritten in place, when it is not cut down from one that overflowed. -/
theorem rewritten_paints (synced : Synced host s t) (steady : Steady host lines) (inside : Inside host lines cursorPos)
    {first last : Nat} (facts : DiffFacts s.previousLines lines first last) (least : first < lines.length)
    (visible : s.viewportTopRow ≤ first) (fits : lines.length < s.previousLines.length → s.previousLines.length ≤ host.rows) :
    Paints host t (emitDiff host s lines cursorPos first last (decide (s.previousLines.length < lines.length)) s.viewportTopRow
      s.hardwareCursorRow) lines (t.scrolled ++ ((lines.map shown).take (lines.length - host.rows)).drop s.viewportTopRow) := by
  by_cases shorter : lines.length < s.previousLines.length
  · have none' : lines.length - host.rows = 0 := by
      have := fits shorter
      omega
    rw [decide_eq_false (by omega), none', List.take_zero, List.drop_nil, List.append_nil]
    exact emitDiff_paints_shorter synced steady inside least facts.same shorter (fits shorter) (facts.shorter shorter)
  · apply emitDiff_paints synced steady inside least visible facts.same facts.known (by omega) facts.fresh facts.ordered
    by_cases longer : s.previousLines.length < lines.length
    · have end' : min last (lines.length - 1) + 1 = lines.length := by
        rw [facts.longer longer]
        omega
      rw [end', paper_drop (Nat.le_refl _), paper_drop (Nat.le_of_lt longer)]
    · have size : lines.length = s.previousLines.length := by omega
      obtain ⟨within,same⟩ := facts.level size
      have end' : min last (lines.length - 1) + 1 = last + 1 := by omega
      rw [end', paper, paper, List.drop_append_of_le_length (by rw [List.length_map]; omega),
        List.drop_append_of_le_length (by rw [List.length_map]; omega), ← List.map_drop, ← List.map_drop, same, size]

/-- Marks that no account is kept in make no difference to what agrees. -/
theorem initial_paints {cursorPos : Option CursorPos} (steady : Steady host lines) (inside : Inside host lines cursorPos) :
    Paints host t ((emitFullPaint host s lines cursorPos true false).1,
      { (emitFullPaint host s lines cursorPos true false).2 with hasEverRendered := true }) lines
      (t.scrolled ++ (lines.map shown).take (lines.length - host.rows)) := by
  have painted := @emitFullPaint_paints host s t lines cursorPos false t.scrolled steady inside rfl
  exact ⟨⟨painted.synced.rendered,painted.synced.top,painted.synced.cursor,painted.synced.screen⟩,painted.lines,
    painted.scrolled⟩

theorem replay_paints {cleared : Tui} (steady : Steady host lines) (inside : Inside host lines cursorPos) :
    Paints host t (emitFullPaint host cleared lines cursorPos true true) lines
      ((lines.map shown).take (lines.length - host.rows)) :=
  @emitFullPaint_paints host cleared t lines cursorPos true [] steady inside rfl

/-- A repaint behind an appended tail keeps what the tail pushed away. -/
theorem tail_paints {pushed : Tui} {tail : List (Control CodeUnit)} (steady : Steady host lines)
    (inside : Inside host lines cursorPos) :
    Paints host t (tail ++ (emitViewportRepaint host pushed lines cursorPos).1, (emitViewportRepaint host pushed lines cursorPos).2)
      lines (run (visibleWidth host) t tail).scrolled := by
  obtain ⟨synced,kept,scrolled⟩ := @emitViewportRepaint_paints host pushed (run (visibleWidth host) t tail) lines cursorPos
    (fun line mem => (steady line mem).2) inside
  exact ⟨by simpa only [run_append] using synced,kept,by simpa only [run_append] using scrolled⟩

end painted

/- A frame whose lines all fit the width of the terminal. -/
def Narrow (host : Host) (frame : Frame) : Prop :=
  ∀ line ∈ frame.rendered, visibleWidth host (applyLineReset host (replaceAll line cursorMarker [])) ≤ host.columns

instance (host : Host) (frame : Frame) : Decidable (Narrow host frame) :=
  inferInstanceAs (Decidable (∀ line ∈ frame.rendered,
    visibleWidth host (applyLineReset host (replaceAll line cursorMarker [])) ≤ host.columns))

theorem steady_frameLines {host : Host} {frame : Frame} (plain : Plain host frame) (narrow : Narrow host frame) :
    Steady host (frameLines host frame) := by
  intro line mem
  refine ⟨noEmpty_frameLines plain line mem,?_⟩
  obtain ⟨own,inside,is⟩ := mem_frameLines mem
  have fit : ∀ text, visibleWidth host text ≤ host.columns → fitLineToWidth host text = text := by
    intro text fits
    rw [fitLineToWidth, if_pos fits, ite_self]
  rw [is, composeLine, fit _ (narrow own inside), fit _ (narrow own inside)]

def isDeferred : RenderIntent → Bool
  | .deferredShrink _ => true
  | .deferredMutation => true
  | _ => false

/- An intent whose emitter takes rows off the screen where they are. -/
def cutsInPlace (host : Host) (dropped : Nat) : RenderIntent → Bool
  | .shrink => dropped ≤ host.rows
  | .diff _ _ _ => true
  | _ => false

/- A frame shorter than one that overflowed the screen, with the rows above the old window not redrawn. -/
def Stranded (host : Host) (s : Tui) (frame : Frame) : Prop :=
  host.rows < s.previousLines.length ∧ (frameLines host frame).length < s.previousLines.length ∧
    cutsInPlace host (s.previousLines.length - (frameLines host frame).length) (classify host s frame).intent = true

instance (host : Host) (s : Tui) (frame : Frame) : Decidable (Stranded host s frame) := instDecidableAnd

section run
variable {host : Host}

/-- Of every render: no overlay or image, lines that fit, and a frame that is not deferred. -/
structure Rendered (host : Host) (s : Tui) (frame : Frame) : Prop where
  plain : Plain host frame
  narrow : Narrow host frame
  live : isDeferred (classify host s frame).intent = false

instance (s : Tui) (frame : Frame) : Decidable (Rendered host s frame) :=
  decidable_of_iff (Plain host frame ∧ Narrow host frame ∧ isDeferred (classify host s frame).intent = false)
    ⟨fun ⟨plain,narrow,live⟩ => ⟨plain,narrow,live⟩,fun rendered => ⟨rendered.plain,rendered.narrow,rendered.live⟩⟩

def Allowed (session : Session host) (event : Event) : Prop := OfRender (fun _ s frame => Rendered host s frame) session event

def NotStranded (session : Session host) (event : Event) : Prop := OfRender (fun _ s frame => ¬ Stranded host s frame) session event

/- After a render the screen shows the end of the frame, and the cursor is where the account has it. -/
def Shown (session : Session host) (event : Event) : Prop :=
  ∀ made ∈ rendering session event, (step session event).terminal.rows = window host.rows (frameLines host made.2) ∧
    ((step session event).terminal.row : Int) = (step session event).tui.hardwareCursorRow - (step session event).tui.viewportTopRow

instance (session : Session host) (event : Event) : Decidable (Allowed session event) :=
  inferInstanceAs (Decidable (OfRender (fun _ s frame => Rendered host s frame) session event))

instance (session : Session host) (event : Event) : Decidable (NotStranded session event) :=
  inferInstanceAs (Decidable (OfRender (fun _ s frame => ¬ Stranded host s frame) session event))

instance (session : Session host) (event : Event) : Decidable (Shown session event) :=
  inferInstanceAs (Decidable (∀ made ∈ rendering session event,
    (step session event).terminal.rows = window host.rows (frameLines host made.2) ∧
      ((step session event).terminal.row : Int) =
        (step session event).tui.hardwareCursorRow - (step session event).tui.viewportTopRow))

/-- The account agrees with the terminal once there is a frame. -/
structure Agrees (session : Session host) : Prop where
  sized : Sized host session.tui
  synced : session.tui.hasEverRendered = true → Synced host session.tui session.terminal
  noEmpty : session.tui.hasEverRendered = true → NoEmpty session.tui.previousLines

variable {s : Tui} {t : Terminal CodeUnit host.rows}

theorem synced_classified (synced : Synced host s t) (plan : Plan) :
    Synced host (classified s plan) t := ⟨synced.rendered,synced.top,synced.cursor,synced.screen⟩

/-- Whatever the intent, the render paints its frame. -/
theorem doRender_paints {frame : Frame} (single : host.isMultiplexerSession = false) (sized : Sized host s)
    (synced : s.hasEverRendered = true → Synced host s t) (noEmpty : s.hasEverRendered = true → NoEmpty s.previousLines)
    (rendered : Rendered host s frame) (calm : ¬ Stranded host s frame) : ∃ gone, Paints host t (doRender host s frame) (frameLines host frame) gone := by
  have plain := rendered.plain
  have steady := steady_frameLines plain rendered.narrow
  have fits : ∀ line ∈ frameLines host frame, fitLineToWidth host line = line := fun line mem => (steady line mem).2
  have inside : Inside host (frameLines host frame) (frameCursor host frame) := inside_frameLines
  have lines : (planning host s frame).newLines = frameLines host frame := planning_lines plain
  have outcome := planRender_outcome (s := s) (ordinary_planning single plain sized)
  have live := rendered.live
  rw [doRender]
  have same : classify host s frame = planRender host s frame (planning host s frame) := rfl
  rw [Stranded, same] at calm
  rw [same] at live ⊢
  generalize planRender host s frame (planning host s frame) = plan at outcome live calm
  obtain ⟨intent,dirty,suppress⟩ := plan
  have ready : s.hasEverRendered = true → Synced host (classified s ⟨intent,dirty,suppress⟩) t :=
    fun ever => synced_classified (synced ever) _
  cases outcome with
  | initial never =>
    rw [execute_initial plain]
    exact ⟨_,initial_paints steady inside⟩
  | replaced ever =>
    rw [execute_replace plain single]
    exact ⟨_,replay_paints steady inside⟩
  | rebuilt ever =>
    rw [execute_replay plain single]
    exact ⟨_,replay_paints steady inside⟩
  | deferred paddedLength ever => contradiction
  | dropped ever => contradiction
  | marked appendFrom ever =>
    cases appendFrom with
    | none =>
      rw [execute_repaint plain]
      exact ⟨_,emitViewportRepaint_paints fits inside⟩
    | some start =>
      rw [execute_repaint_tail plain]
      exact ⟨_,tail_paints steady inside⟩
  | same ever none' =>
    rw [execute_noop plain]
    exact ⟨_,noop_paints (ready ever) inside (by rw [← lines]; exact same_of_none (noEmpty ever) none')⟩
  | refreshed ever none' =>
    rw [execute_repaint plain]
    exact ⟨_,emitViewportRepaint_paints fits inside⟩
  | inserted ever longer level =>
    rw [execute_repaint plain]
    exact ⟨_,emitViewportRepaint_paints fits inside⟩
  | wiped ever shorter uncut =>
    rw [execute_repaint plain]
    exact ⟨_,emitViewportRepaint_paints fits inside⟩
  | level first ever found size visible =>
    rw [execute_repaint plain]
    exact ⟨_,emitViewportRepaint_paints fits inside⟩
  | appended ever found longer full =>
    rw [execute_repaint_tail plain]
    exact ⟨_,tail_paints steady inside⟩
  | shrunk first ever found trailing uncut =>
    rw [lines] at found trailing
    obtain ⟨front,shorter⟩ := front_of_trailing (diffFacts (noEmpty ever) (noEmpty_frameLines plain) found) trailing
    rw [execute_shrink plain]
    refine ⟨_,emitShrink_paints (ready ever) steady inside front shorter ?_⟩
    by_contra neither
    rw [not_or] at neither
    exact calm ⟨Nat.lt_of_not_le neither.1,shorter,decide_eq_true (Nat.le_of_not_lt neither.2)⟩
  | rewritten first ever found least visible uncut =>
    rw [lines] at found least ⊢
    have facts := diffFacts (noEmpty ever) (noEmpty_frameLines plain) found
    rw [execute_diff plain]
    refine ⟨_,rewritten_paints (ready ever) steady inside facts least visible fun shorter => ?_⟩
    by_contra past
    exact calm ⟨Nat.lt_of_not_le past,shorter,rfl⟩

theorem synced_same {s other : Tui} (same : SameAccount s other) (synced : Synced host s t) : Synced host other t := by
  obtain ⟨max',top,cursor,screen⟩ := synced
  constructor
  · rw [same.maxLinesRendered, same.previousLines, max']
  · rw [same.viewportTopRow, same.previousLines, top]
  · rw [same.hardwareCursorRow, same.viewportTopRow, cursor]
  · rw [same.previousLines, screen]

/-- Only marks differ: what agrees goes on agreeing. -/
theorem agrees_same {session other : Session host} (same : SameAccount session.tui other.tui)
    (still : other.terminal = session.terminal) (agrees : Agrees session) : Agrees other := by
  constructor
  · exact same.sized agrees.sized
  · intro ever
    rw [same.hasEverRendered] at ever
    rw [still]
    exact synced_same same (agrees.synced ever)
  · intro ever
    rw [same.hasEverRendered] at ever
    rw [same.previousLines]
    exact agrees.noEmpty ever

/-- One event: what it renders is shown, and the account goes on agreeing. -/
theorem step_agrees (single : host.isMultiplexerSession = false) (session : Session host) (event : Event)
    (agrees : Agrees session) (allowed : Allowed session event ∧ NotStranded session event) :
    Shown session event ∧ Agrees (step session event) := by
  rcases @step_cases host session event with ⟨s,frame,made,same,is⟩ | ⟨none',same,still⟩
  · have rendered : Rendered host s frame := allowed.1 (s, frame) made
    have before : Agrees (⟨s,session.terminal⟩ : Session host) := agrees_same same rfl agrees
    obtain ⟨gone,painted⟩ : ∃ gone, Paints host session.terminal (doRender host s frame) (frameLines host frame) gone :=
      doRender_paints single before.sized before.synced before.noEmpty rendered (allowed.2 (s, frame) made)
    have executed := @execute_executed host (classified s (classify host s frame)) frame (classify host s frame).intent
      s.viewportTopRow s.hardwareCursorRow
    have cursor := painted.synced.cursor
    have screen := painted.synced.screen
    rw [painted.lines] at screen
    have placed : ((run (visibleWidth host) session.terminal (doRender host s frame).1).row : Int) =
        (doRender host s frame).2.hardwareCursorRow - (doRender host s frame).2.viewportTopRow := by omega
    constructor
    · intro other mem
      rw [made] at mem
      cases mem
      rw [is]
      exact ⟨screen,placed⟩
    · rw [is]
      constructor
      · exact executed.sized before.sized
      · exact fun _ => painted.synced
      · intro _
        show NoEmpty (doRender host s frame).2.previousLines
        rw [painted.lines]
        exact noEmpty_frameLines rendered.plain
  · constructor
    · intro other mem
      rw [none'] at mem
      contradiction
    · exact agrees_same same still agrees

/- A renderer before its first frame, on whatever the terminal shows. -/
def opened (showHardwareCursor clearOnShrink : Bool) (terminal : Terminal CodeUnit host.rows) : Session host :=
  ⟨newTui showHardwareCursor clearOnShrink,terminal⟩

theorem agrees_opened (showHardwareCursor clearOnShrink : Bool) (terminal : Terminal CodeUnit host.rows) :
    Agrees (opened showHardwareCursor clearOnShrink terminal) := by
  constructor
  · exact ⟨Or.inl rfl,Or.inl rfl⟩
  · intro ever
    contradiction
  · intro ever
    contradiction

/-- Over every run: after every render the screen is the end of its frame and the cursor is where the account has
    it, as long as no render cuts a frame down in place from one that overflowed the screen. -/
theorem frames_shown (single : host.isMultiplexerSession = false) (showHardwareCursor clearOnShrink : Bool)
    (terminal : Terminal CodeUnit host.rows) (events : List Event)
    (run : Every step Allowed (opened showHardwareCursor clearOnShrink terminal) events)
    (calm : Every step NotStranded (opened showHardwareCursor clearOnShrink terminal) events) :
    Every step Shown (opened showHardwareCursor clearOnShrink terminal) events :=
  every_of_keeps (step_agrees single) (agrees_opened showHardwareCursor clearOnShrink terminal) (every_and run calm)

end run

/- Three rows of eighty columns, with a probe that never knows. -/
def plainHost : Host where
  columns := 80
  rows := 3
  visibleWidthRaw := fun line => (replaceAll line segmentReset []).length
  truncateToWidth := fun line width =>
    if (replaceAll (line ++ terminatorFor line) segmentReset []).length ≤ width then line else []
  isImageLine := fun _ => false
  isMultiplexerSession := false
  isTermuxSession := false
  isWin32 := false
  eagerEraseScrollbackRisk := false

def blankTerminal : Terminal CodeUnit plainHost.rows := ⟨[[], [], []],0,0,[],rfl,by decide⟩

def unseen (lines : List String) : Event := .doRender ⟨lines.map js,none,false,fun _ => none⟩

theorem appended_and_edited_are_shown :
    Every step Shown (opened false false blankTerminal) [unseen ["a", "b", "c", "d"], unseen ["a", "b", "c", "d", "e"], unseen ["a", "b", "c", "x", "e"]] :=
  frames_shown rfl false false blankTerminal _ (by decide +kernel) (by decide +kernel)

/-- The edit above the window repaints it for six lines with one row counted as scrolled away; dropping the
    last line then erases a row and does not move the two others down. -/
theorem cut_down_in_place : plainHost.isMultiplexerSession = false ∧ plainHost.isWin32 = false ∧
    Every step Allowed (opened false false blankTerminal)
      [unseen ["a", "b", "c", "d"], unseen ["x", "y", "z", "w", "v", "u"], unseen ["x", "y", "z", "w", "v"]] ∧
    ¬ Every step Shown (opened false false blankTerminal)
      [unseen ["a", "b", "c", "d"], unseen ["x", "y", "z", "w", "v", "u"], unseen ["x", "y", "z", "w", "v"]] := by
  decide +kernel

end FrameShown
