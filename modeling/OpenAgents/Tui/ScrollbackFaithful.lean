import OpenAgents.Tui.FrameShown

/- The rows that scrolled away. Unless they are marked as stale they are the lines of the frame above its
   window, each once and in order. -/
namespace ScrollbackFaithful
open JsText TextReplace TerminalScreen TuiRenderer TuiEmitters TuiOutcomes TuiSessions FrameShown CheckedRuns

/- The rows of a frame above its window. -/
def above (height : Nat) (lines : List JsString) : List (Row CodeUnit) := (lines.map shown).take (lines.length - height)

section parts
variable {host : Host} {s : Tui} {lines : List JsString} {cursorPos : Option CursorPos} {height : Nat}

theorem above_fitting (fits : lines.length ≤ height) : above height lines = [] := by
  rw [above, Nat.sub_eq_zero_of_le fits, List.take_zero]

variable {previous : List JsString} {first : Nat} {cursorRow : Int}

/-- Lines that agree above the window, and the rows that scroll away when it moves down. -/
theorem above_joined (same : lines.take first = previous.take first) (visible : previous.length - height ≤ first)
    (longer : previous.length ≤ lines.length) :
    above height previous ++ ((lines.map shown).take (lines.length - height)).drop (previous.length - height) =
      above height lines := by
  have front : above height previous = ((lines.map shown).take (lines.length - height)).take (previous.length - height) := by
    have cut : lines.take (previous.length - height) = previous.take (previous.length - height) := by
      have both := congrArg (List.take (previous.length - height)) same
      rw [List.take_take, List.take_take, Nat.min_eq_left visible] at both
      exact both
    rw [above, List.take_take, Nat.min_eq_left (by omega), ← List.map_take, ← List.map_take, cut]
  rw [front, List.take_append_drop, above]

theorem above_level (same : lines.take first = previous.take first) (visible : previous.length - height ≤ first)
    (size : lines.length = previous.length) : above height previous = above height lines := by
  have joined := above_joined same visible (Nat.le_of_eq size.symm)
  rw [size, List.drop_of_length_le (by rw [List.length_take]; omega), List.append_nil] at joined
  exact joined

theorem emitFullPaint_highWater {clearViewport : Bool} :
    (emitFullPaint host s lines cursorPos clearViewport true).2.scrollbackHighWater = lines.length - host.rows :=
  Nat.max_eq_right (Nat.zero_le _)

theorem emitShrink_highWater {top : Nat} :
    (emitShrink host s lines cursorPos cursorRow top).2.scrollbackHighWater = s.scrollbackHighWater := by
  by_cases none' : s.previousLines.length - lines.length = 0
  · rw [emitShrink, if_pos none']
    rfl
  · by_cases many : host.rows < s.previousLines.length - lines.length
    · rw [emitShrink, if_neg none', if_pos many]
      rfl
    · rw [emitShrink, if_neg none', if_neg many]
      rfl

theorem emitDiff_highWater {first last top : Nat} {appendedLines : Bool} :
    (emitDiff host s lines cursorPos first last appendedLines top cursorRow).2.scrollbackHighWater =
      if s.previousLines.length < lines.length then max s.scrollbackHighWater (lines.length - host.rows)
      else s.scrollbackHighWater := by
  unfold emitDiff
  dsimp only
  split
  · rfl
  · rfl

theorem emitAppendTail_highWater {start top : Nat} (longer : start < lines.length) :
    (emitAppendTail host s lines start top cursorRow).2.scrollbackHighWater =
      max s.scrollbackHighWater (lines.length - host.rows) := by
  rw [emitAppendTail, if_neg (by omega)]
  rfl

end parts

/-- What the account says of a scrollback that is not marked stale. -/
structure Clean (host : Host) (s : Tui) (t : Terminal CodeUnit host.rows) : Prop where
  counted : s.scrollbackHighWater = s.previousLines.length - host.rows
  scrolled : t.scrolled = above host.rows s.previousLines
  synced : s.hasEverRendered = true → Synced host s t
  noEmpty : s.hasEverRendered = true → NoEmpty s.previousLines

/-- A paint whose rows and high-water mark are those of its frame. -/
theorem clean_of_paints {host : Host} {t : Terminal CodeUnit host.rows} {out : List (Control CodeUnit) × Tui}
    {lines : List JsString} {gone : List (Row CodeUnit)} (painted : Paints host t out lines gone)
    (whole : gone = above host.rows lines) (full : NoEmpty lines) (counted : out.2.scrollbackHighWater = lines.length - host.rows) :
    Clean host out.2 (run (visibleWidth host) t out.1) := by
  constructor
  · rw [counted, painted.lines]
  · rw [painted.scrolled, painted.lines, whole]
  · exact fun _ => painted.synced
  · intro _
    rw [painted.lines]
    exact full

/-- A repaint of the window, for a frame with the same rows above it. -/
theorem repainted_clean {host : Host} {s ready : Tui} {t : Terminal CodeUnit host.rows} {lines : List JsString}
    {cursorPos : Option CursorPos} (before : Clean host s t) (steady : Steady host lines) (inside : Inside host lines cursorPos)
    (full : NoEmpty lines) (rows : above host.rows s.previousLines = above host.rows lines)
    (size : s.previousLines.length - host.rows = lines.length - host.rows) (same : ready.scrollbackHighWater = s.scrollbackHighWater) :
    Clean host (emitViewportRepaint host ready lines cursorPos).2
      (run (visibleWidth host) t (emitViewportRepaint host ready lines cursorPos).1) := by
  have painted := @emitViewportRepaint_paints host ready t lines cursorPos (fun line mem => (steady line mem).2) inside
  exact clean_of_paints painted (before.scrolled.trans rows) full (same.trans (before.counted.trans size))

section rendered
variable {host : Host} {s : Tui} {t : Terminal CodeUnit host.rows} {lines : List JsString} {cursorPos : Option CursorPos}

theorem clean_classified (clean : Clean host s t) (plan : Plan) : Clean host (classified s plan) t :=
  ⟨clean.counted,clean.scrolled,fun ever => synced_classified (clean.synced ever) plan,clean.noEmpty⟩

/-- The first paint, over a terminal that no frame has scrolled yet. -/
theorem initial_clean (before : Clean host s t) (nothing : s.previousLines = []) (steady : Steady host lines)
    (inside : Inside host lines cursorPos) (full : NoEmpty lines) :
    Clean host { (emitFullPaint host s lines cursorPos true false).2 with hasEverRendered := true }
      (run (visibleWidth host) t (emitFullPaint host s lines cursorPos true false).1) := by
  have counted := before.counted
  have scrolled := before.scrolled
  rw [nothing] at counted scrolled
  have painted := @initial_paints host s t lines cursorPos steady inside
  apply clean_of_paints painted (by rw [scrolled, above_fitting (Nat.zero_le _), List.nil_append]; rfl) full
  show max s.scrollbackHighWater (lines.length - host.rows) = _
  rw [counted, List.length_nil, Nat.zero_sub, Nat.zero_max]

/-- Lines written below a frame that fills the window, for a frame that goes on from it. -/
theorem appended_clean {last : Nat} (before : Clean host s t) (ever : s.hasEverRendered = true) (steady : Steady host lines)
    (inside : Inside host lines cursorPos) (full : NoEmpty lines) (facts : DiffFacts s.previousLines lines s.previousLines.length last)
    (longer : s.previousLines.length < lines.length) (filled : host.rows ≤ s.previousLines.length) :
    Clean host
      (emitViewportRepaint host (emitAppendTail host s lines s.previousLines.length s.viewportTopRow s.hardwareCursorRow).2
        lines cursorPos).2
      (run (visibleWidth host) t
        ((emitAppendTail host s lines s.previousLines.length s.viewportTopRow s.hardwareCursorRow).1 ++
          (emitViewportRepaint host (emitAppendTail host s lines s.previousLines.length s.viewportTopRow s.hardwareCursorRow).2
            lines cursorPos).1)) := by
  have synced := before.synced ever
  have counted := before.counted
  have front : s.previousLines <+: lines := by
    have same := facts.same
    rw [List.take_length] at same
    rw [← same]
    exact List.take_prefix _ _
  have pushed := emitAppendTail_scrolls synced (fun line mem => (steady line mem).2) filled front longer
  have painted := @tail_paints host t lines cursorPos
    (emitAppendTail host s lines s.previousLines.length s.viewportTopRow s.hardwareCursorRow).2
    (emitAppendTail host s lines s.previousLines.length s.viewportTopRow s.hardwareCursorRow).1 steady inside
  have joined := @above_joined lines host.rows s.previousLines _ facts.same (Nat.sub_le _ _) (Nat.le_of_lt longer)
  rw [← synced.top, ← before.scrolled] at joined
  apply clean_of_paints painted (pushed.trans joined) full
  show (emitAppendTail host s lines s.previousLines.length s.viewportTopRow s.hardwareCursorRow).2.scrollbackHighWater = _
  rw [emitAppendTail_highWater longer]
  omega

/-- Lines that go away at the end of a frame that the window shows whole. -/
theorem shrunk_clean (before : Clean host s t) (ever : s.hasEverRendered = true) (steady : Steady host lines)
    (inside : Inside host lines cursorPos) (full : NoEmpty lines) (front : lines <+: s.previousLines)
    (shorter : lines.length < s.previousLines.length) (short : s.previousLines.length ≤ host.rows) :
    Clean host (emitShrink host s lines cursorPos s.hardwareCursorRow s.viewportTopRow).2
      (run (visibleWidth host) t (emitShrink host s lines cursorPos s.hardwareCursorRow s.viewportTopRow).1) := by
  have counted := before.counted
  have painted := emitShrink_paints (before.synced ever) steady inside front shorter (Or.inl short)
  apply clean_of_paints painted (by rw [before.scrolled, above_fitting short, above_fitting (by omega)]) full
  rw [emitShrink_highWater]
  omega

/-- The rows from the first changed one on, when the window shows it. -/
theorem rewritten_clean {first last : Nat} (before : Clean host s t) (ever : s.hasEverRendered = true)
    (steady : Steady host lines) (inside : Inside host lines cursorPos) (full : NoEmpty lines)
    (facts : DiffFacts s.previousLines lines first last) (least : first < lines.length) (visible : s.viewportTopRow ≤ first)
    (short : lines.length < s.previousLines.length → s.previousLines.length ≤ host.rows) :
    Clean host
      (emitDiff host s lines cursorPos first last (decide (s.previousLines.length < lines.length)) s.viewportTopRow
        s.hardwareCursorRow).2
      (run (visibleWidth host) t
        (emitDiff host s lines cursorPos first last (decide (s.previousLines.length < lines.length)) s.viewportTopRow
          s.hardwareCursorRow).1) := by
  have synced := before.synced ever
  have counted := before.counted
  have there : s.previousLines.length - host.rows ≤ first := by
    rw [synced.top] at visible
    exact visible
  have painted := rewritten_paints synced steady inside facts least visible short
  apply clean_of_paints painted _ full
  · rw [emitDiff_highWater]
    split
    · omega
    · omega
  · rw [synced.top, before.scrolled]
    by_cases shorter : lines.length < s.previousLines.length
    · have fitting := short shorter
      rw [above_fitting fitting, above_fitting (by omega), Nat.sub_eq_zero_of_le (by omega : lines.length ≤ host.rows),
        List.take_zero, List.drop_nil, List.nil_append]
    · exact above_joined facts.same there (by omega)

end rendered

/-- A render after which the scrollback is not marked stale leaves it as the frame has it. -/
theorem doRender_clean {host : Host} {s : Tui} {t : Terminal CodeUnit host.rows} {frame : Frame}
    (single : host.isMultiplexerSession = false) (sized : Sized host s) (plain : Plain host frame)
    (steady : Steady host (frameLines host frame)) (unrendered : s.hasEverRendered = false → s.nativeScrollbackDirty = false ∧ s.previousLines = [])
    (clean : s.nativeScrollbackDirty = false → Clean host s t)
    (after : (doRender host s frame).2.nativeScrollbackDirty = false) :
    Clean host (doRender host s frame).2 (run (visibleWidth host) t (doRender host s frame).1) := by
  have inside : Inside host (frameLines host frame) (frameCursor host frame) := inside_frameLines
  have full := noEmpty_frameLines plain
  have lines : (planning host s frame).newLines = frameLines host frame := planning_lines plain
  have top : (planning host s frame).prevViewportTop = s.viewportTopRow := rfl
  have outcome := planRender_outcome (s := s) (ordinary_planning single plain sized)
  have same : classify host s frame = planRender host s frame (planning host s frame) := rfl
  rw [doRender] at after ⊢
  rw [execute_executed.nativeScrollbackDirty] at after
  rw [same] at after ⊢
  generalize planRender host s frame (planning host s frame) = plan at outcome after
  obtain ⟨intent,dirty,suppress⟩ := plan
  simp only [classified] at after
  cases outcome with
  | initial never =>
    obtain ⟨known,nothing⟩ := unrendered never
    rw [execute_initial plain]
    exact initial_clean (clean_classified (clean known) _) nothing steady inside full
  | replaced ever =>
    rw [execute_replace plain single]
    exact clean_of_paints (replay_paints steady inside) rfl full emitFullPaint_highWater
  | rebuilt ever =>
    rw [execute_replay plain single]
    exact clean_of_paints (replay_paints steady inside) rfl full emitFullPaint_highWater
  | deferred paddedLength ever => simp [replays] at after
  | dropped ever => simp [replays] at after
  | marked appendFrom ever => simp [replays] at after
  | same ever none' =>
    have known : s.nativeScrollbackDirty = false := by simpa [replays] using after
    have before := clean known
    have equal : frameLines host frame = s.previousLines := by
      rw [← lines]
      exact same_of_none (before.noEmpty ever) none'
    have painted := noop_paints (synced_classified (before.synced ever) ⟨.noop,s.nativeScrollbackDirty,suppress⟩) inside
      equal
    rw [execute_noop plain]
    apply clean_of_paints painted (by rw [before.scrolled, equal]) full
    obtain ⟨row,moved⟩ := @writeCursorPosition_moves (classified s ⟨.noop,s.nativeScrollbackDirty,suppress⟩)
      (frameCursor host frame) (frameLines host frame).length
    rw [moved, equal]
    exact before.counted
  | refreshed ever none' =>
    have known : s.nativeScrollbackDirty = false := by simpa [replays] using after
    have before := clean known
    have equal : frameLines host frame = s.previousLines := by
      rw [← lines]
      exact same_of_none (before.noEmpty ever) none'
    rw [execute_repaint plain]
    apply repainted_clean before steady inside full
    · rw [equal]
    · rw [equal]
    · rfl
  | inserted ever longer level =>
    have known : s.nativeScrollbackDirty = false := by simpa [replays] using after
    rw [lines] at longer level
    rw [execute_repaint plain]
    apply repainted_clean (clean known) steady inside full
    · rw [above_fitting (by omega), above_fitting (by omega)]
    · omega
    · rfl
  | wiped ever shorter uncut =>
    have known : s.nativeScrollbackDirty = false := by simpa [replays] using after
    have before := clean known
    have counted := before.counted
    have cut := uncut shorter
    rw [lines] at shorter cut
    rw [execute_repaint plain]
    apply repainted_clean before steady inside full
    · rw [above_fitting (by omega), above_fitting (by omega)]
    · omega
    · rfl
  | level first ever found size visible =>
    have known : s.nativeScrollbackDirty = false := by simpa [replays] using after
    have before := clean known
    have synced := before.synced ever
    rw [lines] at found size
    rw [top, synced.top] at visible
    have facts := diffFacts (before.noEmpty ever) full found
    rw [execute_repaint plain]
    apply repainted_clean before steady inside full
    · exact above_level facts.same visible size
    · rw [size]
    · rfl
  | appended ever found longer filled =>
    have known : s.nativeScrollbackDirty = false := by simpa [replays] using after
    have before := clean known
    rw [lines] at found longer
    rw [execute_repaint_tail plain]
    exact appended_clean (clean_classified before _) ever steady inside full (diffFacts (before.noEmpty ever) full found) longer
      filled
  | shrunk first ever found trailing uncut =>
    have known : s.nativeScrollbackDirty = false := by simpa [replays] using after
    have before := clean known
    rw [lines] at found trailing
    obtain ⟨front,shorter⟩ := front_of_trailing (diffFacts (before.noEmpty ever) full found) trailing
    have cut := uncut (by rw [lines]; exact shorter)
    have counted := before.counted
    rw [lines] at cut
    rw [execute_shrink plain]
    have short : s.previousLines.length ≤ host.rows := by omega
    exact shrunk_clean (clean_classified before _) ever steady inside full front shorter short
  | rewritten first ever found least visible uncut =>
    have known : s.nativeScrollbackDirty = false := by simpa [replays] using after
    have before := clean known
    have counted := before.counted
    rw [lines] at found least ⊢
    rw [top] at visible
    have short : (frameLines host frame).length < s.previousLines.length → s.previousLines.length ≤ host.rows := by
      intro shorter
      have cut := uncut (by rw [lines]; exact shorter)
      rw [lines] at cut
      omega
    rw [execute_diff plain]
    exact rewritten_clean (clean_classified before _) ever steady inside full (diffFacts (before.noEmpty ever) full found) least
      visible short

/-- The native truncation leaves a line that fits, with the reset behind it. -/
def Truncates (host : Host) : Prop :=
  ∀ line, visibleWidth host (host.truncateToWidth line host.columns ++ terminatorFor (host.truncateToWidth line host.columns)) ≤
    host.columns

section run
variable {host : Host}

theorem fit_twice (truncates : Truncates host) (line : JsString) :
    fitLineToWidth host (fitLineToWidth host line) = fitLineToWidth host line := by
  by_cases image : host.isImageLine line = true
  · have same : fitLineToWidth host line = line := by rw [fitLineToWidth, if_pos image]
    rw [same, same]
  · by_cases narrow : visibleWidth host line ≤ host.columns
    · have same : fitLineToWidth host line = line := by rw [fitLineToWidth, if_neg image, if_pos narrow]
      rw [same, same]
    · have cut : fitLineToWidth host line = host.truncateToWidth line host.columns ++
          terminatorFor (host.truncateToWidth line host.columns) := by
        rw [fitLineToWidth, if_neg image, if_neg narrow]
      rw [cut, fitLineToWidth, if_pos (truncates line), ite_self]

theorem steady_of_truncates (truncates : Truncates host) {frame : Frame} (plain : Plain host frame) :
    Steady host (frameLines host frame) := by
  intro line mem
  refine ⟨noEmpty_frameLines plain line mem,?_⟩
  obtain ⟨own,inside,is⟩ := mem_frameLines mem
  rw [is, composeLine, fit_twice truncates]

/- Of every render: no overlay and no image. -/
def PlainRender (session : Session host) (event : Event) : Prop := OfRender (fun _ _ frame => Plain host frame) session event

instance (session : Session host) (event : Event) : Decidable (PlainRender session event) :=
  inferInstanceAs (Decidable (OfRender (fun _ _ frame => Plain host frame) session event))

/-- The scrollback is as the account has it, unless it is marked stale. -/
structure Faithful (session : Session host) : Prop where
  sized : Sized host session.tui
  unrendered : session.tui.hasEverRendered = false →
    session.tui.nativeScrollbackDirty = false ∧ session.tui.previousLines = []
  clean : session.tui.nativeScrollbackDirty = false → Clean host session.tui session.terminal

theorem faithful_same {session other : Session host} (same : SameAccount session.tui other.tui)
    (still : other.terminal = session.terminal) (faithful : Faithful session) : Faithful other := by
  constructor
  · exact same.sized faithful.sized
  · intro never
    rw [same.hasEverRendered] at never
    rw [same.nativeScrollbackDirty, same.previousLines]
    exact faithful.unrendered never
  · intro known
    rw [same.nativeScrollbackDirty] at known
    obtain ⟨counted,scrolled,synced,noEmpty⟩ := faithful.clean known
    constructor
    · rw [same.scrollbackHighWater, same.previousLines, counted]
    · rw [still, same.previousLines, scrolled]
    · intro ever
      rw [same.hasEverRendered] at ever
      rw [still]
      exact synced_same same (synced ever)
    · intro ever
      rw [same.hasEverRendered] at ever
      rw [same.previousLines]
      exact noEmpty ever

/-- After a render there has been one. -/
theorem doRender_rendered {s : Tui} {frame : Frame} : (doRender host s frame).2.hasEverRendered = true := by
  rw [doRender, execute_executed.hasEverRendered]
  cases ever : s.hasEverRendered with
  | true => simp [classified, ever]
  | false => simp [classify, planRender, ever]

theorem step_faithful (single : host.isMultiplexerSession = false) (truncates : Truncates host) (session : Session host)
    (event : Event) (faithful : Faithful session) (allowed : PlainRender session event) : Faithful (step session event) := by
  rcases @step_cases host session event with ⟨s,frame,made,same,is⟩ | ⟨none',same,still⟩
  · have plain : Plain host frame := allowed (s, frame) made
    have before : Faithful (⟨s,session.terminal⟩ : Session host) := faithful_same same rfl faithful
    rw [is]
    constructor
    · exact execute_executed.sized before.sized
    · intro never
      have ever : (doRender host s frame).2.hasEverRendered = true := doRender_rendered
      rw [Session.write, ever] at never
      contradiction
    · exact doRender_clean single before.sized plain (steady_of_truncates truncates plain) before.unrendered before.clean
  · exact faithful_same same still faithful

theorem faithful_opened (showHardwareCursor clearOnShrink : Bool) (terminal : Terminal CodeUnit host.rows) :
    Faithful (opened showHardwareCursor clearOnShrink { terminal with scrolled := [] }) := by
  constructor
  · exact ⟨Or.inl rfl,Or.inl rfl⟩
  · exact fun _ => ⟨rfl,rfl⟩
  · intro _
    constructor
    · exact (Nat.zero_sub _).symm
    · exact (above_fitting (Nat.zero_le _)).symm
    · intro ever
      contradiction
    · intro ever
      contradiction

/-- In every state that a run reaches, a scrollback that is not marked stale holds the lines of the last committed
    frame above its window, all of them, once and in order. -/
theorem scrollback_faithful (single : host.isMultiplexerSession = false) (truncates : Truncates host)
    (showHardwareCursor clearOnShrink : Bool) (terminal : Terminal CodeUnit host.rows) (events : List Event)
    (run : Every step PlainRender (opened showHardwareCursor clearOnShrink { terminal with scrolled := [] }) events) :
    let session := runEvents (opened showHardwareCursor clearOnShrink { terminal with scrolled := [] }) events
    session.tui.nativeScrollbackDirty = false →
      session.terminal.scrolled = above host.rows session.tui.previousLines := by
  intro session known
  have faithful : Faithful session :=
    inv_of_keeps (step_faithful single truncates) (faithful_opened showHardwareCursor clearOnShrink terminal) run
  exact (faithful.clean known).scrolled

end run

theorem plainHost_truncates : Truncates plainHost := by
  intro line
  have cut : plainHost.truncateToWidth line plainHost.columns =
      if (replaceAll (line ++ terminatorFor line) segmentReset []).length ≤ 80 then line else [] := rfl
  by_cases narrow : (replaceAll (line ++ terminatorFor line) segmentReset []).length ≤ 80
  · rw [cut, if_pos narrow, visibleWidth]
    split
    · exact Nat.zero_le _
    · exact narrow
  · rw [cut, if_neg narrow]
    decide +kernel

theorem grown_frame_scrolls :
    let session := runEvents (opened false false { blankTerminal with scrolled := [] })
      [unseen ["a", "b", "c", "d"], unseen ["a", "b", "c", "d", "e"], unseen ["a", "b", "c", "x", "e"]]
    session.terminal.scrolled = [shown (js "a" ++ segmentReset), shown (js "b" ++ segmentReset)] :=
  (scrollback_faithful rfl plainHost_truncates false false blankTerminal
    [unseen ["a", "b", "c", "d"], unseen ["a", "b", "c", "d", "e"], unseen ["a", "b", "c", "x", "e"]]
    (by decide +kernel) (by decide +kernel)).trans (by decide +kernel)

end ScrollbackFaithful
