import OpenAgents.Session.Manager
import OpenAgents.Lib.HeldFiles

/- Writing a session to its file: a synchronous append path with a cached writer,
   and rewrites that run on a promise chain and may be interleaved with appends at
   every await. There are no storage errors, so the error fields are left out. -/
namespace Persistence
open JsText Session HeldFiles

/-- The cached append writer; one that is being closed accepts nothing. -/
structure Writer where
  path : JsString
  held : Nat
  accepting : Bool
  deriving DecidableEq, Repr

inductive Task where
  | rewrite
  | close
  deriving DecidableEq, Repr

/-- Where a task waits between two of its awaits. -/
inductive Running where
  | closeWriter
  | rewriteClosing
  | rewriteCleared
  | rewriteSnapshotted (lines : List FileEntry)
  | rewriteWritten (temp : Nat)
  | rewriteRenaming (target : JsString) (temp : Nat)
  | rewriteRenamed
  deriving DecidableEq

structure Chain where
  running : Option Running
  queue : List Task
  deriving DecidableEq

def Chain.resolved : Chain := ⟨none,[]⟩

def Chain.idle (c : Chain) : Prop := c = .resolved

instance (c : Chain) : Decidable c.idle := inferInstanceAs (Decidable (c = _))

inductive MovePhase where
  | closing
  | closed
  | moving (hadSessionFile : Bool)
  | moved (hadSessionFile : Bool)
  deriving DecidableEq, Repr

/-- A call of `moveTo` under way. -/
structure Move where
  newCwd : JsString
  newSessionFile : JsString
  phase : MovePhase
  deriving DecidableEq

structure State where
  cwd : JsString
  header : SessionHeader
  entries : List SessionEntry
  sessionFile : JsString
  ensuredOnDisk : Bool
  flushed : Bool
  needsFullRewriteOnNextPersist : Bool
  persistWriter : Option Writer
  disk : Disk JsString FileEntry
  persistChain : Chain
  -- Chains that `moveTo` let go of while they had tasks left.
  abandoned : List Chain
  move : Option Move

section Storage
variable (prepareEntryForPersistence : FileEntry → FileEntry)

/-- The lines a whole-file rewrite would write. -/
def State.lines (st : State) : List FileEntry :=
  (.session st.header :: st.entries.map .entry).map prepareEntryForPersistence

def isAssistantEntry (e : SessionEntry) : Bool := e.body matches .message (.assistant _ _)

def State.hasAssistant (st : State) : Bool := st.entries.any isAssistantEntry

def State.queueTask (st : State) (task : Task) : State :=
  { st with persistChain := { st.persistChain with queue := st.persistChain.queue ++ [task] } }

/- Tasks -/

/-- A writer that is being closed stays cached until the close is through. -/
def State.startClose (st : State) (w : Writer) : State :=
  { st with persistWriter := some { w with accepting := false } }

/- A `moveTo` goes on once its close is through. -/
def State.closeThrough (st : State) : State :=
  { st with
    persistWriter := none
    move := st.move.map fun m => if m.phase = .closing then { m with phase := .closed } else m }

/-- The first step of a task; without a writer there is nothing to wait for. -/
def startTask (st : State) : Task → State × Option Running
  | .rewrite =>
      match st.persistWriter with
      | some w => (st.startClose w, some .rewriteClosing)
      | none => (st, some .rewriteCleared)
  | .close =>
      match st.persistWriter with
      | some w => (st.startClose w, some .closeWriter)
      | none => (st.closeThrough, none)

/-- What a task does between two of its awaits. -/
def continueTask (st : State) : Running → State × Option Running
  | .closeWriter => (st.closeThrough, none)
  | .rewriteClosing => ({ st with persistWriter := none }, some .rewriteCleared)
  | .rewriteCleared => (st, some (.rewriteSnapshotted (st.lines prepareEntryForPersistence)))
  | .rewriteSnapshotted lines =>
      ({ st with disk := st.disk.create lines }, some (.rewriteWritten st.disk.next))
  | .rewriteWritten temp => (st, some (.rewriteRenaming st.sessionFile temp))
  | .rewriteRenaming target temp => ({ st with disk := st.disk.link target temp }, some .rewriteRenamed)
  | .rewriteRenamed => ({ st with needsFullRewriteOnNextPersist := false, flushed := true }, none)

/-- One step of the first task of a chain. -/
def stepChain (st : State) (chain : Chain) : Option (State × Chain) :=
  match chain.running with
  | some running =>
      let (after, rest) := continueTask prepareEntryForPersistence st running
      some (after, { chain with running := rest })
  | none =>
      match chain.queue with
      | [] => none
      | task :: queue =>
          let (after, rest) := startTask st task
          some (after, ⟨rest,queue⟩)

/- Appending -/

/-- The cached writer of the session file, or a new one; none while the cached one closes. -/
def State.ensurePersistWriter (st : State) : Option (State × Writer) :=
  let opened :=
    let (disk, held) := st.disk.openAppend st.sessionFile
    let writer : Writer := ⟨st.sessionFile,held,true⟩
    ({ st with disk := disk, persistWriter := some writer }, writer)
  match st.persistWriter with
  | some w =>
      if w.path = st.sessionFile then if w.accepting then some (st, w) else none
      else some opened
  | none => some opened

/- Nothing is written before the first assistant message, unless the file is wanted at once. -/
def State.deferred (st : State) : Bool := !st.ensuredOnDisk && !st.hasAssistant

def State.persist (st : State) (entry : SessionEntry) : State :=
  if st.deferred then { st with flushed := false }
  else if st.needsFullRewriteOnNextPersist || !st.flushed then st.queueTask .rewrite
  else
    match st.ensurePersistWriter with
    | none => st.queueTask .rewrite
    | some (st, w) => { st with disk := st.disk.append w.held (prepareEntryForPersistence (.entry entry)) }

def State.appendEntry (st : State) (entry : SessionEntry) : State :=
  ({ st with entries := st.entries ++ [entry] }).persist prepareEntryForPersistence entry

/- Rewrites -/

def State.rewriteEntries (st : State) : State := st.queueTask .rewrite

def controlToSpace (c : CodeUnit) : CodeUnit := if c ≤ 0x1F || (0x7F ≤ c && c ≤ 0x9F) then 32 else c

def squeezeSpaces : JsString → JsString
  | [] => []
  | c :: rest =>
      let squeezed := squeezeSpaces rest
      if c = 32 ∧ squeezed.head? = some 32 then squeezed else c :: squeezed

def sanitizeName (name : JsString) : JsString := trim (squeezeSpaces (name.map controlToSpace))

/-- A name the user chose is not replaced by a generated one. -/
def State.setSessionName (st : State) (name source : JsString) : State :=
  if st.header.titleSource = some (js "user") ∧ source = js "auto" then st
  else
    let sanitized := sanitizeName name
    if sanitized = [] then st
    else
      let st := { st with header := { st.header with title := some sanitized, titleSource := some source } }
      if st.disk.exists st.sessionFile then st.queueTask .rewrite else st

/- Moving -/

/-- The synchronous start of `moveTo`; a second call while one is under way is not modelled. -/
def State.moveTo (st : State) (newCwd newSessionFile : JsString) : Option State :=
  if st.move.isSome then none
  else if newCwd = st.cwd then some st
  else some ({ st with move := some ⟨newCwd,newSessionFile,.closing⟩ }.queueTask .close)

/-- What `moveTo` does between two of its awaits. -/
def State.continueMove (st : State) : Option State :=
  match st.move with
  | none => none
  | some m =>
      match m.phase with
      | .closing => none
      | .closed =>
          some
            { st with
              persistChain := .resolved
              abandoned := if st.persistChain.idle then st.abandoned else st.abandoned ++ [st.persistChain]
              move := some { m with phase := .moving (st.disk.exists st.sessionFile) } }
      | .moving hadSessionFile =>
          some
            { st with
              disk := if hadSessionFile then st.disk.rename st.sessionFile m.newSessionFile else st.disk
              move := some { m with phase := .moved hadSessionFile } }
      | .moved hadSessionFile =>
          let st :=
            { st with
              sessionFile := m.newSessionFile
              cwd := m.newCwd
              header := { st.header with cwd := m.newCwd }
              move := none }
          some (if hadSessionFile || st.hasAssistant then st.queueTask .rewrite else st)

/- Events -/

inductive Event where
  | append (entry : SessionEntry)
  | setSessionName (name source : JsString)
  | rewriteEntries
  | moveTo (newCwd newSessionFile : JsString)
  | chainStep
  | abandonedStep (i : Nat)
  | moveStep

/- None where nothing is there to go on. -/
def step (st : State) : Event → Option State
  | .append entry => some (st.appendEntry prepareEntryForPersistence entry)
  | .setSessionName name source => some (st.setSessionName name source)
  | .rewriteEntries => some st.rewriteEntries
  | .moveTo newCwd newSessionFile => st.moveTo newCwd newSessionFile
  | .chainStep =>
      (stepChain prepareEntryForPersistence st st.persistChain).map fun after =>
        { after.1 with persistChain := after.2 }
  | .abandonedStep i =>
      (st.abandoned[i]?).bind fun chain =>
        (stepChain prepareEntryForPersistence st chain).map fun after =>
          { after.1 with abandoned := after.1.abandoned.set i after.2 }
  | .moveStep => st.continueMove

def run (st : State) (events : List Event) : Option State :=
  events.foldlM (step prepareEntryForPersistence) st

end Storage

end Persistence
