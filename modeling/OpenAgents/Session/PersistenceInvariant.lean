import OpenAgents.Session.Persistence

/- What holds between any two steps of a session that is being written, as long as
   no append comes between a rewrite and its rename. -/
namespace Persistence
open JsText Session HeldFiles

/- From here to the rename a new append writer would hold the old file. -/
def Running.inWindow : Running → Bool
  | .rewriteCleared | .rewriteSnapshotted _ | .rewriteWritten _ | .rewriteRenaming _ _ => true
  | _ => false

def Running.holdsSnapshot : Running → Bool
  | .rewriteSnapshotted _ | .rewriteWritten _ | .rewriteRenaming _ _ | .rewriteRenamed => true
  | _ => false

/- The cached writer is being closed. -/
def Running.closes : Running → Bool
  | .closeWriter | .rewriteClosing => true
  | _ => false

def State.running (st : State) : List Running := (st.persistChain :: st.abandoned).filterMap Chain.running

def State.pushed (st : State) (entry : SessionEntry) : State := { st with entries := st.entries ++ [entry] }

/- The append would be written at once, by the cached or a new writer. -/
def State.takesHotPath (st : State) : Bool :=
  !st.deferred && !(st.needsFullRewriteOnNextPersist || !st.flushed) && st.ensurePersistWriter.isSome

/- The condition on one step. -/
def Clean (st : State) : Event → Prop
  | .append entry =>
      ((st.pushed entry).takesHotPath = true → ∀ r ∈ st.running, r.inWindow = false) ∧
      ((st.pushed entry).deferred = true → ∀ r ∈ st.running, r.holdsSnapshot = false)
  | .setSessionName _ _ =>
      st.disk.exists st.sessionFile = false → ∀ r ∈ st.running, r.holdsSnapshot = false
  | .moveStep =>
      ∀ m ∈ st.move,
        (m.phase = .closed → st.persistChain.idle) ∧
        (m.phase = .moved false → st.hasAssistant = false → st.persistChain.idle ∧ st.flushed = false)
  | _ => True

instance (st : State) : (event : Event) → Decidable (Clean st event)
  | .append _ => inferInstanceAs (Decidable ((_ → _) ∧ (_ → _)))
  | .setSessionName _ _ => inferInstanceAs (Decidable (_ → _))
  | .moveStep => inferInstanceAs (Decidable (∀ m ∈ st.move, _ ∧ _))
  | .rewriteEntries | .moveTo _ _ | .chainStep | .abandonedStep _ => isTrue trivial

section Storage
variable (prepareEntryForPersistence : FileEntry → FileEntry)

/-- A new session, or one that was read from its file. -/
structure Start (st : State) : Prop where
  chain : st.persistChain = .resolved
  abandoned : st.abandoned = []
  move : st.move = none
  writer : st.persistWriter = none
  stored : st.entries = [] ∧ st.ensuredOnDisk = false ∧ st.flushed = false ∨
    st.disk.exists st.sessionFile = true ∧
      (st.disk.read st.sessionFile = some (st.lines prepareEntryForPersistence) ∨
        st.needsFullRewriteOnNextPersist = true)

/- Invariant -/

def Running.temp? : Running → Option Nat
  | .rewriteWritten temp | .rewriteRenaming _ temp => some temp
  | _ => none

def State.moveRewrites (st : State) : Prop :=
  ∃ m ∈ st.move, m.phase = .moving true ∨ m.phase = .moved true

/- A rewrite is still to take its snapshot. -/
def State.willRewrite (st : State) : Prop := .rewrite ∈ st.persistChain.queue ∨ st.moveRewrites

/- The session is in the file, or in the rewrite that is under way. -/
def State.carried (st : State) : Prop :=
  match st.persistChain.running with
  | some .rewriteClosing | some .rewriteCleared => True
  | some (.rewriteSnapshotted lines) => lines = st.lines prepareEntryForPersistence
  | some (.rewriteWritten temp) => st.disk.contents temp = st.lines prepareEntryForPersistence
  | some (.rewriteRenaming target temp) =>
      target = st.sessionFile ∧ st.disk.contents temp = st.lines prepareEntryForPersistence
  | some .rewriteRenamed | some .closeWriter | none =>
      st.disk.read st.sessionFile = some (st.lines prepareEntryForPersistence)

def State.uncommitted (st : State) : Prop :=
  (∀ r ∈ st.persistChain.running, r.holdsSnapshot = false) ∧
    (st.deferred = true ∧ st.flushed = false ∨ st.needsFullRewriteOnNextPersist = true)

/- The name that will be the session file once a move is through. -/
def State.landing (st : State) : JsString :=
  match st.move with
  | some m => if m.phase = .moved true then m.newSessionFile else st.sessionFile
  | none => st.sessionFile

structure Inv (st : State) : Prop where
  alone : st.abandoned = []
  temp : ∀ r ∈ st.persistChain.running, ∀ t ∈ r.temp?, t < st.disk.next
  window : ∀ r ∈ st.persistChain.running, r.inWindow = true → st.persistWriter = none
  closing : ∀ w ∈ st.persistWriter, w.accepting = false → ∃ r ∈ st.persistChain.running, r.closes = true
  lands : ∀ w ∈ st.persistWriter, w.path = st.landing → st.disk.names st.landing = some w.held
  moveWriter : ∀ m ∈ st.move, m.phase ≠ .closing → ∀ w ∈ st.persistWriter, w.path = st.sessionFile
  file : st.ensuredOnDisk = true → st.disk.exists st.landing = true
  unsaved : ∀ m ∈ st.move, m.phase = .moving false ∨ m.phase = .moved false → st.ensuredOnDisk = false
  covered : st.willRewrite ∨ st.carried prepareEntryForPersistence ∨ st.uncommitted

variable {st : State} {r : Running} {w : Writer} {disk : Disk JsString FileEntry} {m : Move} {queue : List Task}
  {had : Bool}

theorem Inv.running_alone (inv : Inv prepareEntryForPersistence st) : r ∈ st.running ↔ r ∈ st.persistChain.running := by
  simp [State.running, inv.alone]

theorem start_inv (start : Start prepareEntryForPersistence st) : Inv prepareEntryForPersistence st := by
  have landing : st.landing = st.sessionFile := by
    rw [State.landing, start.move]
  refine ⟨start.abandoned,by simp [start.chain, Chain.resolved],by simp [start.chain, Chain.resolved],
    by simp [start.writer],by simp [start.writer],by simp [start.move],?_,by simp [start.move],?_⟩
  · intro ensured
    rw [landing]
    rcases start.stored with ⟨-,not_ensured,-⟩ | ⟨present,-⟩
    · rw [ensured] at not_ensured
      cases not_ensured
    · exact present
  · rcases start.stored with ⟨empty,not_ensured,not_flushed⟩ | ⟨-,read | full⟩
    · refine .inr (.inr ⟨by simp [start.chain, Chain.resolved],.inl ⟨?_,not_flushed⟩⟩)
      simp [State.deferred, State.hasAssistant, empty, not_ensured]
    · right
      left
      rw [State.carried, start.chain]
      exact read
    · exact .inr (.inr ⟨by simp [start.chain, Chain.resolved],.inr full⟩)

/- What is added in memory -/

/-- Whatever changes in memory, a queued rewrite will write it. -/
theorem Inv.queueRewrite {st changed : State} (inv : Inv prepareEntryForPersistence st)
    (same : changed = { st with header := changed.header, entries := changed.entries }) :
    Inv prepareEntryForPersistence (changed.queueTask .rewrite) := by
  rw [same]
  have queued : State.willRewrite
      (State.queueTask { st with header := changed.header, entries := changed.entries } .rewrite) := by
    left
    simp [State.queueTask]
  exact { inv with covered := .inl queued }

theorem Inv.deferredAppend (inv : Inv prepareEntryForPersistence st) {entry : SessionEntry}
    (deferred : (st.pushed entry).deferred = true) (clean : Clean st (.append entry)) :
    Inv prepareEntryForPersistence { st.pushed entry with flushed := false } := by
  have uncommitted : State.uncommitted { st.pushed entry with flushed := false } := by
    refine ⟨?_,.inl ⟨deferred,rfl⟩⟩
    intro r running
    exact clean.2 deferred r ((inv.running_alone prepareEntryForPersistence).mpr running)
  exact { inv with covered := .inr (.inr uncommitted) }

/- The hot path -/

/-- The writer in use is the cached one, or a new one on the file of that name. -/
theorem ensurePersistWriter_cases {st after : State} (ensured : st.ensurePersistWriter = some (after, w)) :
    (after = st ∧ st.persistWriter = some w ∧ w.path = st.sessionFile ∧ w.accepting = true) ∨
      (w = ⟨st.sessionFile,(st.disk.openAppend st.sessionFile).2,true⟩ ∧
        after = { st with disk := (st.disk.openAppend st.sessionFile).1, persistWriter := some w }) := by
  unfold State.ensurePersistWriter at ensured
  cases cached : st.persistWriter with
  | none =>
    rw [cached] at ensured
    cases ensured
    exact .inr ⟨rfl,rfl⟩
  | some v =>
    rw [cached] at ensured
    simp only at ensured
    split at ensured
    · rename_i path
      split at ensured
      · rename_i accepting
        cases ensured
        exact .inl ⟨rfl,rfl,path,accepting⟩
      · cases ensured
    · cases ensured
      exact .inr ⟨rfl,rfl⟩

theorem ensurePersistWriter_pushed (st : State) (entry : SessionEntry) :
    (st.pushed entry).ensurePersistWriter =
      st.ensurePersistWriter.map fun opened => (opened.1.pushed entry, opened.2) := by
  unfold State.ensurePersistWriter State.pushed
  cases cached : st.persistWriter with
  | none => rfl
  | some w =>
    by_cases path : w.path = st.sessionFile
    · cases accepting : w.accepting with
      | true => simp [path, accepting, cached]
      | false => simp [path, accepting]
    · simp [path]

theorem lines_pushed (st : State) (entry : SessionEntry) :
    (st.pushed entry).lines prepareEntryForPersistence =
      st.lines prepareEntryForPersistence ++ [prepareEntryForPersistence (.entry entry)] := by
  simp [State.lines, State.pushed]

/-- A name that is read keeps its file when a writer is opened on it. -/
theorem read_openAppend_self {name : JsString} {lines : List FileEntry} (read : disk.read name = some lines) : (disk.openAppend name).1.read name = some lines := by
  cases named : disk.names name with
  | none => simp [Disk.read, named] at read
  | some held =>
    rw [openAppend_known disk named]
    exact read

/-- Outside the window a task under way leaves the session in its file, unless it will write it. -/
theorem carried_outside_window (carried : st.carried prepareEntryForPersistence)
    (outside : ∀ r ∈ st.persistChain.running, r.inWindow = false) :
    st.persistChain.running = some .rewriteClosing ∨
      st.disk.read st.sessionFile = some (st.lines prepareEntryForPersistence) := by
  unfold State.carried at carried
  cases running : st.persistChain.running with
  | none =>
    rw [running] at carried
    exact .inr carried
  | some r =>
    rw [running] at carried
    have not_window := outside r running
    cases r with
    | closeWriter => exact .inr carried
    | rewriteClosing => exact .inl rfl
    | rewriteRenamed => exact .inr carried
    | rewriteCleared => cases not_window
    | rewriteSnapshotted => cases not_window
    | rewriteWritten => cases not_window
    | rewriteRenaming => cases not_window

/-- Conversely, a file that holds the session carries it, outside the window. -/
theorem carried_of_outside_window (outside : ∀ r ∈ st.persistChain.running, r.inWindow = false)
    (held : st.persistChain.running = some .rewriteClosing ∨
      st.disk.read st.sessionFile = some (st.lines prepareEntryForPersistence)) : st.carried prepareEntryForPersistence := by
  unfold State.carried
  cases running : st.persistChain.running with
  | none => exact held.resolve_left (by simp [running])
  | some r =>
    have not_window := outside r running
    cases r with
    | closeWriter => exact held.resolve_left (by simp [running])
    | rewriteClosing => trivial
    | rewriteRenamed => exact held.resolve_left (by simp [running])
    | rewriteCleared => cases not_window
    | rewriteSnapshotted => cases not_window
    | rewriteWritten => cases not_window
    | rewriteRenaming => cases not_window

theorem Inv.ensureWriter {st after : State} (inv : Inv prepareEntryForPersistence st)
    (outside : ∀ r ∈ st.persistChain.running, r.inWindow = false) (ensured : st.ensurePersistWriter = some (after, w)) :
    Inv prepareEntryForPersistence after := by
  rcases ensurePersistWriter_cases ensured with ⟨rfl,-⟩ | ⟨opened,rfl⟩
  · exact inv
  · have temp : ∀ r ∈ st.persistChain.running, ∀ t ∈ r.temp?,
        t < (st.disk.openAppend st.sessionFile).1.next := by
      intro r running t has
      exact Nat.lt_of_lt_of_le (inv.temp r running t has) (next_openAppend st.disk st.sessionFile)
    have lands : w.path = st.landing →
        (st.disk.openAppend st.sessionFile).1.names st.landing = some w.held := by
      intro path
      rw [← path, opened]
      exact names_openAppend st.disk st.sessionFile
    refine { inv with
      temp := temp
      window := ?_
      lands := ?_
      closing := ?_
      moveWriter := ?_
      file := fun ensured => exists_openAppend st.disk st.sessionFile (inv.file ensured)
      covered := ?_ }
    · intro r running inside
      rw [outside r running] at inside
      cases inside
    · intro v cached rejecting
      cases cached
      rw [opened] at rejecting
      cases rejecting
    · intro v cached
      cases cached
      exact lands
    · intro m moving phase v cached
      cases cached
      rw [opened]
    · rcases inv.covered with will | carried | uncommitted
      · exact .inl will
      · right
        left
        refine carried_of_outside_window prepareEntryForPersistence outside ?_
        rcases carried_outside_window prepareEntryForPersistence carried outside with closing | read
        · exact .inl closing
        · exact .inr (read_openAppend_self read)
      · exact .inr (.inr uncommitted)

theorem landing_or_moveRewrites (st : State) : st.landing = st.sessionFile ∨ st.moveRewrites := by
  unfold State.landing State.moveRewrites
  cases st.move with
  | none => exact .inl rfl
  | some m =>
    by_cases moved : m.phase = .moved true
    · exact .inr ⟨m,rfl,.inr moved⟩
    · simp [moved]

theorem Inv.hotAppend {entry : SessionEntry} (inv : Inv prepareEntryForPersistence st)
    (outside : ∀ r ∈ st.persistChain.running, r.inWindow = false) (flushed : st.flushed = true)
    (current : st.needsFullRewriteOnNextPersist = false) (cached : st.persistWriter = some w)
    (path : w.path = st.sessionFile) :
    Inv prepareEntryForPersistence
      { st.pushed entry with
        disk := st.disk.append w.held (prepareEntryForPersistence (.entry entry)) } := by
  refine { inv with covered := ?_ }
  rcases landing_or_moveRewrites st with landing | rewrites
  · rcases inv.covered with will | carried | ⟨-,unflushed | full⟩
    · exact .inl will
    · right
      left
      refine carried_of_outside_window prepareEntryForPersistence outside ?_
      rcases carried_outside_window prepareEntryForPersistence carried outside with closing | read
      · exact .inl closing
      · right
        have named : st.disk.names st.sessionFile = some w.held := by
          rw [← landing]
          exact inv.lands w cached (path.trans landing.symm)
        have appended := read_append st.disk named (prepareEntryForPersistence (.entry entry))
        rw [read, Option.map_some, ← lines_pushed] at appended
        exact appended
    · rw [flushed] at unflushed
      cases unflushed.2
    · rw [current] at full
      cases full
  · exact .inl (.inr rewrites)

/-- The hot path and its condition, taken apart. -/
theorem takesHotPath_of {st after : State} {entry : SessionEntry} (waits : ¬(st.pushed entry).deferred = true)
    (current : ¬((st.pushed entry).needsFullRewriteOnNextPersist || !(st.pushed entry).flushed) = true)
    (ensured : st.ensurePersistWriter = some (after, w)) : (st.pushed entry).takesHotPath = true := by
  have opens : (st.pushed entry).ensurePersistWriter.isSome = true := by
    rw [ensurePersistWriter_pushed, ensured]
    rfl
  rw [State.takesHotPath, Bool.eq_false_iff.mpr waits, Bool.eq_false_iff.mpr current, opens]
  rfl

theorem ensurePersistWriter_frame {st after : State} (ensured : st.ensurePersistWriter = some (after, w)) :
    after = { st with disk := after.disk, persistWriter := some w } ∧ w.path = st.sessionFile := by
  rcases ensurePersistWriter_cases ensured with ⟨rfl,cached,path,-⟩ | ⟨opened,rfl⟩
  · refine ⟨?_,path⟩
    rw [← cached]
  · exact ⟨rfl,by rw [opened]⟩

theorem Inv.append (inv : Inv prepareEntryForPersistence st) {entry : SessionEntry} (clean : Clean st (.append entry)) :
    Inv prepareEntryForPersistence (st.appendEntry prepareEntryForPersistence entry) := by
  have unfolded : st.appendEntry prepareEntryForPersistence entry =
      (st.pushed entry).persist prepareEntryForPersistence entry := rfl
  rw [unfolded, State.persist]
  by_cases waits : (st.pushed entry).deferred = true
  · rw [if_pos waits]
    exact inv.deferredAppend prepareEntryForPersistence waits clean
  · rw [if_neg waits]
    have queued : Inv prepareEntryForPersistence ((st.pushed entry).queueTask .rewrite) :=
      inv.queueRewrite prepareEntryForPersistence rfl
    by_cases rewrites :
        ((st.pushed entry).needsFullRewriteOnNextPersist || !(st.pushed entry).flushed) = true
    · rw [if_pos rewrites]
      exact queued
    · rw [if_neg rewrites, ensurePersistWriter_pushed]
      cases ensured : st.ensurePersistWriter with
      | none => exact queued
      | some opened =>
        obtain ⟨after,w⟩ := opened
        obtain ⟨same,path⟩ := ensurePersistWriter_frame ensured
        have outside : ∀ r ∈ st.persistChain.running, r.inWindow = false := by
          intro r running
          exact clean.1 (takesHotPath_of waits rewrites ensured) r
            ((inv.running_alone prepareEntryForPersistence).mpr running)
        have opened := inv.ensureWriter prepareEntryForPersistence outside ensured
        have settled : st.needsFullRewriteOnNextPersist = false ∧ st.flushed = true := by
          simpa [State.pushed] using rewrites
        rw [same] at opened ⊢
        exact opened.hotAppend prepareEntryForPersistence outside settled.2 settled.1 rfl path

/-- Without a file there is no rewrite, so nothing but a snapshot could miss the name. -/
theorem Inv.headerChange (inv : Inv prepareEntryForPersistence st) {header : SessionHeader}
    (absent : st.disk.exists st.sessionFile = false) (no_snapshot : ∀ r ∈ st.persistChain.running, r.holdsSnapshot = false) :
    Inv prepareEntryForPersistence { st with header := header } := by
  refine { inv with covered := ?_ }
  rcases inv.covered with will | carried | uncommitted
  · exact .inl will
  · have unread : st.disk.read st.sessionFile = none := by
      simpa [Disk.exists, Disk.read] using absent
    right
    left
    unfold State.carried at carried ⊢
    cases running : st.persistChain.running with
    | none => simp [running, unread] at carried
    | some r =>
      have no_lines := no_snapshot r running
      cases r with
      | closeWriter => simp [running, unread] at carried
      | rewriteClosing => trivial
      | rewriteCleared => trivial
      | rewriteSnapshotted => cases no_lines
      | rewriteWritten => cases no_lines
      | rewriteRenaming => cases no_lines
      | rewriteRenamed => cases no_lines
  · exact .inr (.inr uncommitted)

theorem Inv.setSessionName (inv : Inv prepareEntryForPersistence st) {name source : JsString}
    (clean : Clean st (.setSessionName name source)) : Inv prepareEntryForPersistence (st.setSessionName name source) := by
  unfold State.setSessionName
  split
  · exact inv
  · dsimp only
    split
    · exact inv
    · split
      · exact inv.queueRewrite prepareEntryForPersistence rfl
      · rename_i absent
        refine inv.headerChange prepareEntryForPersistence (Bool.eq_false_iff.mpr absent) ?_
        intro r running
        exact clean (Bool.eq_false_iff.mpr absent) r ((inv.running_alone prepareEntryForPersistence).mpr running)

theorem Inv.moveTo {st after : State} (inv : Inv prepareEntryForPersistence st)
    {newCwd newSessionFile : JsString} (started : st.moveTo newCwd newSessionFile = some after) :
    Inv prepareEntryForPersistence after := by
  unfold State.moveTo at started
  split at started
  · cases started
  · rename_i still
    simp only [Bool.not_eq_true, Option.isSome_eq_false_iff, Option.isNone_iff_eq_none] at still
    split at started
    · cases started
      exact inv
    · cases started
      have landing : st.landing = st.sessionFile := by rw [State.landing, still]
      refine { inv with
        lands := ?_, moveWriter := ?_, file := ?_, unsaved := ?_, covered := ?_ }
      · have lands := inv.lands
        rw [landing] at lands
        exact lands
      · intro m moving phase
        cases moving
        exact absurd rfl phase
      · have file := inv.file
        rw [landing] at file
        exact file
      · intro m moving phase
        cases moving
        rcases phase with phase | phase
        · cases phase
        · cases phase
      · rcases inv.covered with queued | carried | uncommitted
        · left
          left
          rcases queued with queued | ⟨m,moving,-⟩
          · simp [State.queueTask, queued]
          · rw [still] at moving
            cases moving
        · exact .inr (.inl carried)
        · exact .inr (.inr uncommitted)

/- Tasks of the chain -/

theorem landing_closeThrough (st : State) : st.closeThrough.landing = st.landing := by
  unfold State.landing State.closeThrough
  cases st.move with
  | none => rfl
  | some m =>
    by_cases closing : m.phase = .closing
    · simp [closing]
    · simp [closing]

/-- A close moves no further than to the end of the closing phase. -/
theorem closeThrough_past (moving : m ∈ st.closeThrough.move) (past : m.phase ≠ .closed) : m ∈ st.move := by
  unfold State.closeThrough at moving
  simp only [Option.mem_def, Option.map_eq_some_iff] at moving
  obtain ⟨before,known,same⟩ := moving
  split at same
  · subst same
    exact absurd rfl past
  · subst same
    exact known

theorem moveRewrites_closeThrough (rewrites : st.moveRewrites) : st.closeThrough.moveRewrites := by
  obtain ⟨m,moving,phase⟩ := rewrites
  have waits : m.phase ≠ .closing := by
    intro closing
    rw [closing] at phase
    rcases phase with phase | phase
    · cases phase
    · cases phase
  refine ⟨m,?_,phase⟩
  simp only [Option.mem_def] at moving
  simp [State.closeThrough, moving, waits]

theorem Inv.closeThrough (inv : Inv prepareEntryForPersistence st)
    (running : st.persistChain.running = none ∨ st.persistChain.running = some .closeWriter)
    (queued : .rewrite ∈ st.persistChain.queue → .rewrite ∈ queue) :
    Inv prepareEntryForPersistence { st.closeThrough with persistChain := ⟨none,queue⟩ } := by
  have landing : State.landing { st.closeThrough with persistChain := ⟨none,queue⟩ } = st.landing :=
    landing_closeThrough st
  constructor
  case alone => exact inv.alone
  case temp => intro r none_running; cases none_running
  case window => intro r none_running; cases none_running
  case closing => intro w none_cached; cases none_cached
  case lands => intro w none_cached; cases none_cached
  case moveWriter => intro m _ _ w none_cached; cases none_cached
  case file =>
    rw [landing]
    exact inv.file
  case unsaved =>
    intro m moving phase
    refine inv.unsaved m (closeThrough_past moving ?_) phase
    intro closed
    rw [closed] at phase
    rcases phase with phase | phase
    · cases phase
    · cases phase
  case covered =>
    rcases inv.covered with (inside | rewrites) | carried | uncommitted
    · exact .inl (.inl (queued inside))
    · exact .inl (.inr (moveRewrites_closeThrough rewrites))
    · right
      left
      rcases running with running | running
      · rw [State.carried, running] at carried
        exact carried
      · rw [State.carried, running] at carried
        exact carried
    · right
      right
      refine ⟨?_,uncommitted.2⟩
      intro r none_running
      cases none_running

/-- A task that closes the cached writer begins: a rewrite is under way, or what was queued still is. -/
theorem Inv.startClose (inv : Inv prepareEntryForPersistence st) (idle : st.persistChain.running = none)
    (cached : st.persistWriter = some w) (closes : r = .rewriteClosing ∨
      r = .closeWriter ∧ (.rewrite ∈ st.persistChain.queue → .rewrite ∈ queue)) :
    Inv prepareEntryForPersistence { st.startClose w with persistChain := ⟨some r,queue⟩ } := by
  have shape : r.temp? = none ∧ r.inWindow = false ∧ r.closes = true ∧ r.holdsSnapshot = false := by
    rcases closes with rfl | ⟨rfl,-⟩
    · exact ⟨rfl,rfl,rfl,rfl⟩
    · exact ⟨rfl,rfl,rfl,rfl⟩
  refine { inv with
    temp := ?_, window := ?_, closing := ?_, lands := ?_, moveWriter := ?_, covered := ?_ }
  · intro s running t has
    cases running
    rw [shape.1] at has
    cases has
  · intro s running inside
    cases running
    rw [shape.2.1] at inside
    cases inside
  · intro v _ _
    exact ⟨r,rfl,shape.2.2.1⟩
  · intro v closing path
    cases closing
    exact inv.lands w cached path
  · intro m moving phase v closing
    cases closing
    exact inv.moveWriter m moving phase w cached
  · rcases closes with rfl | ⟨rfl,queued⟩
    · exact .inr (.inl trivial)
    · rcases inv.covered with (inside | rewrites) | carried | uncommitted
      · exact .inl (.inl (queued inside))
      · exact .inl (.inr rewrites)
      · rw [State.carried, idle] at carried
        exact .inr (.inl carried)
      · right
        right
        refine ⟨?_,uncommitted.2⟩
        intro s running
        cases running
        exact shape.2.2.2

theorem Inv.startTask {st : State} (inv : Inv prepareEntryForPersistence st) {task : Task} {queue : List Task}
    (idle : st.persistChain.running = none) (queued : st.persistChain.queue = task :: queue) :
    Inv prepareEntryForPersistence
      { (startTask st task).1 with persistChain := ⟨(startTask st task).2,queue⟩ } := by
  have remains : task = .close → .rewrite ∈ st.persistChain.queue → .rewrite ∈ queue := by
    rintro rfl inside
    rw [queued] at inside
    simpa using inside
  cases task with
  | rewrite =>
    cases cached : st.persistWriter with
    | none =>
      have started : Persistence.startTask st .rewrite = (st, some .rewriteCleared) := by
        simp [Persistence.startTask, cached]
      rw [started]
      refine { inv with temp := ?_, window := ?_, closing := ?_, covered := .inr (.inl trivial) }
      · intro r running t has
        cases running
        cases has
      · intro r _ _
        exact cached
      · intro w none_cached
        rw [Option.mem_def, cached] at none_cached
        cases none_cached
    | some w =>
      simp only [Persistence.startTask, cached]
      exact inv.startClose prepareEntryForPersistence idle cached (.inl rfl)
  | close =>
    cases cached : st.persistWriter with
    | none =>
      simp only [Persistence.startTask, cached]
      exact inv.closeThrough prepareEntryForPersistence (.inl idle) (remains rfl)
    | some w =>
      simp only [Persistence.startTask, cached]
      exact inv.startClose prepareEntryForPersistence idle cached (.inr ⟨rfl,remains rfl⟩)

/-- Between two awaits of a rewrite: the disk and the flags change, the cached writer does not. -/
theorem Inv.continueRewrite (inv : Inv prepareEntryForPersistence st) {next : Option Running} {flushed needsFull : Bool}
    (running : st.persistChain.running = some r) (opens : r.closes = false) (temp : ∀ s ∈ next, ∀ t ∈ s.temp?, t < disk.next)
    (window : ∀ s ∈ next, s.inWindow = true → st.persistWriter = none)
    (lands : ∀ w ∈ st.persistWriter, disk.names st.landing = st.disk.names st.landing)
    (file : st.disk.exists st.landing = true → disk.exists st.landing = true)
    (carried : st.carried prepareEntryForPersistence →
      State.carried prepareEntryForPersistence
        { st with
          disk := disk, flushed := flushed, needsFullRewriteOnNextPersist := needsFull
          persistChain := { st.persistChain with running := next } }) (held : r.holdsSnapshot = true ∨
      State.carried prepareEntryForPersistence
        { st with
          disk := disk, flushed := flushed, needsFullRewriteOnNextPersist := needsFull
          persistChain := { st.persistChain with running := next } }) :
    Inv prepareEntryForPersistence
      { st with
        disk := disk, flushed := flushed, needsFullRewriteOnNextPersist := needsFull
        persistChain := { st.persistChain with running := next } } := by
  refine { inv with
    temp := temp, window := window, closing := ?_, lands := ?_, file := ?_, covered := ?_ }
  · intro w cached rejecting
    obtain ⟨s,known,closes⟩ := inv.closing w cached rejecting
    rw [Option.mem_def, running] at known
    cases known
    rw [opens] at closes
    cases closes
  · intro w cached path
    have named := inv.lands w cached path
    rw [← lands w cached] at named
    exact named
  · intro ensured
    exact file (inv.file ensured)
  · rcases inv.covered with will | before | uncommitted
    · exact .inl will
    · exact .inr (.inl (carried before))
    · rcases held with held | now
      · have free := uncommitted.1 r running
        rw [held] at free
        cases free
      · exact .inr (.inl now)

theorem Inv.continueTask {st : State} (inv : Inv prepareEntryForPersistence st) {r : Running}
    (running : st.persistChain.running = some r) :
    Inv prepareEntryForPersistence
      { (continueTask prepareEntryForPersistence st r).1 with
        persistChain :=
          { st.persistChain with running := (continueTask prepareEntryForPersistence st r).2 } } := by
  cases r with
  | closeWriter => exact inv.closeThrough prepareEntryForPersistence (.inr running) id
  | rewriteClosing =>
    refine { inv with
      temp := ?_, window := ?_, closing := ?_, lands := ?_, moveWriter := ?_, covered := .inr (.inl trivial) }
    · intro r cleared t has
      cases cleared
      cases has
    · intro r _ _
      rfl
    · intro w none_cached
      cases none_cached
    · intro w none_cached
      cases none_cached
    · intro m _ _ w none_cached
      cases none_cached
  | rewriteCleared =>
    have writerless : st.persistWriter = none := inv.window .rewriteCleared running rfl
    refine inv.continueRewrite prepareEntryForPersistence running rfl ?_ (fun _ _ _ => writerless)
      (fun _ _ => rfl) id (fun _ => rfl) (.inr rfl)
    intro s snapshotted t has
    cases snapshotted
    cases has
  | rewriteSnapshotted lines =>
    have writerless : st.persistWriter = none := inv.window _ running rfl
    refine inv.continueRewrite prepareEntryForPersistence running rfl ?_ (fun _ _ _ => writerless)
      (fun _ _ => rfl) id ?_ (.inl rfl)
    · intro s written t has
      cases written
      cases has
      exact Nat.lt_succ_self _
    · intro carried
      rw [State.carried, running] at carried
      exact (contents_create st.disk lines).trans carried
  | rewriteWritten temp =>
    have writerless : st.persistWriter = none := inv.window _ running rfl
    refine inv.continueRewrite prepareEntryForPersistence running rfl ?_ (fun _ _ _ => writerless)
      (fun _ _ => rfl) id ?_ (.inl rfl)
    · intro s moving t has
      cases moving
      exact inv.temp _ running t has
    · intro carried
      rw [State.carried, running] at carried
      exact ⟨rfl,carried⟩
  | rewriteRenaming target temp =>
    have writerless : st.persistWriter = none := inv.window _ running rfl
    have inside : temp < st.disk.next := inv.temp _ running temp rfl
    refine inv.continueRewrite prepareEntryForPersistence running rfl ?_ (fun _ _ _ => writerless) ?_
      (exists_link st.disk target temp) ?_ (.inl rfl)
    · intro s renamed t has
      cases renamed
      cases has
    · intro w cached
      rw [Option.mem_def, writerless] at cached
      cases cached
    · intro carried
      rw [State.carried, running] at carried
      obtain ⟨rfl,same⟩ := carried
      exact (read_link st.disk st.sessionFile inside).trans (congrArg some same)
  | rewriteRenamed =>
    refine inv.continueRewrite prepareEntryForPersistence running rfl ?_ ?_ (fun _ _ => rfl) id ?_ (.inl rfl)
    · intro s none_running
      cases none_running
    · intro s none_running
      cases none_running
    · intro carried
      rw [State.carried, running] at carried
      exact carried

theorem Inv.chainStep (inv : Inv prepareEntryForPersistence st) {after : State × Chain}
    (stepped : stepChain prepareEntryForPersistence st st.persistChain = some after) :
    Inv prepareEntryForPersistence { after.1 with persistChain := after.2 } := by
  unfold stepChain at stepped
  cases running : st.persistChain.running with
  | some r =>
    rw [running] at stepped
    cases stepped
    exact inv.continueTask prepareEntryForPersistence running
  | none =>
    rw [running] at stepped
    cases queued : st.persistChain.queue with
    | nil => simp [queued] at stepped
    | cons task queue =>
      rw [queued] at stepped
      cases stepped
      exact inv.startTask prepareEntryForPersistence running queued

/- Steps of a move -/

/-- The chain that is let go of has nothing left, so the new one starts where it ended. -/
theorem Inv.moveClosed (inv : Inv prepareEntryForPersistence st) (moving : st.move = some m) (phase : m.phase = .closed)
    (idle : st.persistChain.idle) :
    Inv prepareEntryForPersistence
      { st with
        persistChain := .resolved
        abandoned := if st.persistChain.idle then st.abandoned else st.abandoned ++ [st.persistChain]
        move := some { m with phase := .moving (st.disk.exists st.sessionFile) } } := by
  have landing : st.landing = st.sessionFile := by
    rw [State.landing, moving]
    simp [phase]
  have writerless : ∀ w ∈ st.persistWriter, w.path = st.sessionFile :=
    inv.moveWriter m moving (by rw [phase]; exact MovePhase.noConfusion)
  rw [if_pos idle]
  have resolved : st.persistChain = .resolved := idle
  have file := inv.file
  have lands := inv.lands
  have closing := inv.closing
  rw [landing] at file lands
  rw [resolved] at closing
  refine { inv with
    temp := ?_, window := ?_, closing := closing, lands := lands, moveWriter := ?_, file := file
    unsaved := ?_, covered := ?_ }
  · intro r none_running
    cases none_running
  · intro r none_running
    cases none_running
  · intro _ _ _
    exact writerless
  · intro now known now_phase
    cases known
    cases ensured : st.ensuredOnDisk with
    | false => rfl
    | true =>
      rw [file ensured] at now_phase
      simp at now_phase
  · rcases inv.covered with (inside | ⟨before,known,rewrites⟩) | carried | uncommitted
    · rw [resolved] at inside
      cases inside
    · rw [Option.mem_def, moving] at known
      cases known
      rw [phase] at rewrites
      simp at rewrites
    · rw [State.carried, resolved] at carried
      exact .inr (.inl carried)
    · refine .inr (.inr ⟨?_,uncommitted.2⟩)
      intro r none_running
      cases none_running

theorem Inv.moveMoving (inv : Inv prepareEntryForPersistence st) (moving : st.move = some m) (phase : m.phase = .moving had) :
    Inv prepareEntryForPersistence
      { st with
        disk := if had then st.disk.rename st.sessionFile m.newSessionFile else st.disk
        move := some { m with phase := .moved had } } := by
  have landing : st.landing = st.sessionFile := by
    rw [State.landing, moving]
    simp [phase]
  have writerless : ∀ w ∈ st.persistWriter, w.path = st.sessionFile :=
    inv.moveWriter m moving (by rw [phase]; exact MovePhase.noConfusion)
  have file := inv.file
  have lands := inv.lands
  rw [landing] at file lands
  cases had with
  | true =>
    have renamed := names_rename st.disk st.sessionFile m.newSessionFile
    refine { inv with lands := ?_, moveWriter := ?_, file := ?_, unsaved := ?_, covered := ?_ }
    · intro w cached _
      exact renamed.trans (lands w cached (writerless w cached))
    · intro _ _ _
      exact writerless
    · intro ensured
      have present := file ensured
      rw [Disk.exists, ← renamed] at present
      exact present
    · intro now known now_phase
      cases known
      simp at now_phase
    · exact .inl (.inr ⟨_,rfl,.inr rfl⟩)
  | false =>
    refine { inv with lands := lands, moveWriter := ?_, file := file, unsaved := ?_, covered := ?_ }
    · intro _ _ _
      exact writerless
    · intro _ _ _
      exact inv.unsaved m moving (.inl phase)
    · rcases inv.covered with (inside | ⟨before,known,rewrites⟩) | carried | uncommitted
      · exact .inl (.inl inside)
      · rw [Option.mem_def, moving] at known
        cases known
        rw [phase] at rewrites
        simp at rewrites
      · exact .inr (.inl carried)
      · exact .inr (.inr uncommitted)

/-- Under the new name: a rewrite is queued, or nothing has been written so far. -/
theorem Inv.moveMoved (inv : Inv prepareEntryForPersistence st) (moving : st.move = some m) (phase : m.phase = .moved had)
    (clean : m.phase = .moved false → st.hasAssistant = false →
      st.persistChain.idle ∧ st.flushed = false) {header : SessionHeader} :
    Inv prepareEntryForPersistence
      (let moved : State :=
        { st with sessionFile := m.newSessionFile, cwd := m.newCwd, header := header, move := none }
       if had || moved.hasAssistant then moved.queueTask .rewrite else moved) := by
  have landing : had = true → st.landing = m.newSessionFile := by
    rintro rfl
    rw [State.landing, moving]
    simp [phase]
  have unmoved : had = false → st.landing = st.sessionFile := by
    rintro rfl
    rw [State.landing, moving]
    simp [phase]
  have lands : ∀ w ∈ st.persistWriter, w.path = m.newSessionFile →
      st.disk.names m.newSessionFile = some w.held := by
    intro w cached path
    have named := inv.lands w cached
    cases had with
    | true =>
      rw [landing rfl] at named
      exact named path
    | false =>
      have writer := inv.moveWriter m moving (by rw [phase]; exact MovePhase.noConfusion) w cached
      rw [unmoved rfl, ← writer, path] at named
      exact named rfl
  have file : st.ensuredOnDisk = true → st.disk.exists m.newSessionFile = true := by
    intro ensured
    cases had with
    | true =>
      rw [← landing rfl]
      exact inv.file ensured
    | false =>
      have unsaved := inv.unsaved m moving (.inr phase)
      rw [ensured] at unsaved
      cases unsaved
  have still : ∀ n ∈ (none : Option Move), n.phase = .moving false ∨ n.phase = .moved false →
      st.ensuredOnDisk = false := by
    intro n known
    cases known
  have no_writer : ∀ n ∈ (none : Option Move), n.phase ≠ .closing →
      ∀ w ∈ st.persistWriter, w.path = m.newSessionFile := by
    intro n known
    cases known
  dsimp only
  split
  · have queued : Task.rewrite ∈ st.persistChain.queue ++ [.rewrite] := by simp
    exact { inv with
      lands := lands, moveWriter := no_writer, file := file, unsaved := still
      covered := .inl (.inl queued) }
  · rename_i no_rewrite
    simp only [Bool.or_eq_true, not_or, Bool.not_eq_true] at no_rewrite
    obtain ⟨rfl,no_assistant⟩ := no_rewrite
    obtain ⟨idle,unflushed⟩ := clean phase no_assistant
    have resolved : st.persistChain = .resolved := idle
    have unanswered : st.hasAssistant = false := no_assistant
    have deferred : st.deferred = true := by
      rw [State.deferred, inv.unsaved m moving (.inr phase), unanswered]
      rfl
    refine { inv with
      lands := lands, moveWriter := no_writer, file := file, unsaved := still
      covered := .inr (.inr ⟨?_,.inl ⟨deferred,unflushed⟩⟩) }
    intro r running
    rw [resolved] at running
    cases running

theorem Inv.moveStep {st after : State} (inv : Inv prepareEntryForPersistence st)
    (clean : Clean st .moveStep) (stepped : st.continueMove = some after) :
    Inv prepareEntryForPersistence after := by
  unfold State.continueMove at stepped
  cases moving : st.move with
  | none => simp [moving] at stepped
  | some m =>
    simp only [moving] at stepped
    obtain ⟨clean_closed,clean_moved⟩ := clean m moving
    cases phase : m.phase with
    | closing => simp [phase] at stepped
    | closed =>
      simp only [phase] at stepped
      cases stepped
      exact inv.moveClosed prepareEntryForPersistence moving phase (clean_closed phase)
    | moving had =>
      simp only [phase] at stepped
      cases stepped
      exact inv.moveMoving prepareEntryForPersistence moving phase
    | moved had =>
      simp only [phase] at stepped
      cases stepped
      exact inv.moveMoved prepareEntryForPersistence moving phase clean_moved

/- Steps -/

theorem step_inv {st after : State} {event : Event} (inv : Inv prepareEntryForPersistence st)
    (clean : Clean st event) (stepped : step prepareEntryForPersistence st event = some after) :
    Inv prepareEntryForPersistence after := by
  cases event with
  | append entry =>
    cases stepped
    exact inv.append prepareEntryForPersistence clean
  | setSessionName name source =>
    cases stepped
    exact inv.setSessionName prepareEntryForPersistence clean
  | rewriteEntries =>
    cases stepped
    exact inv.queueRewrite prepareEntryForPersistence rfl
  | moveTo newCwd newSessionFile => exact inv.moveTo prepareEntryForPersistence stepped
  | chainStep =>
    simp only [step, Option.map_eq_some_iff] at stepped
    obtain ⟨through,stepped,rfl⟩ := stepped
    exact inv.chainStep prepareEntryForPersistence stepped
  | abandonedStep i => simp [step, inv.alone] at stepped
  | moveStep => exact inv.moveStep prepareEntryForPersistence clean stepped

end Storage

end Persistence
