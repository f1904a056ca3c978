import OpenAgents.Lib.DisjointChains
import Mathlib.Tactic.SplitIfs

/- The SQL session storage: an in-memory mirror, the rows of the table, and the statements on
   their way to it.  A writer puts its statements on a chain of its own; every other call is
   a chain by itself. -/
namespace SqlStorage
open DisjointChains Function

abbrev Path := String

/- The rows by their primary key. -/
abbrev Rows := Path → Option String

inductive Statement where
  | upsertReplace : Path → String → Statement
  | upsertAppend : Path → String → Statement
  | delete : Path → Statement
  /- Destination first, as the query binds them. -/
  | rename : Path → Path → Statement
deriving DecidableEq, Repr

def Statement.execute (rows : Rows) : Statement → Rows
  | .upsertReplace path content => update rows path (some content)
  | .upsertAppend path chunk =>
      update rows path (some (match rows path with | some content => content ++ chunk | none => chunk))
  | .delete path => update rows path none
  | .rename dst src =>
      match rows src with
      | some content => update (update rows src none) dst (some content)
      | none => rows

/- A rename onto a row that exists breaks the primary key. -/
def Statement.succeeds (rows : Rows) : Statement → Bool
  | .rename dst src => (rows src).isNone || (rows dst).isNone || dst == src
  | _ => true

def Statement.paths : Statement → List Path
  | .upsertReplace path _ => [path]
  | .upsertAppend path _ => [path]
  | .delete path => [path]
  | .rename dst src => [dst, src]

inductive Flags where
  | a
  | w
deriving DecidableEq, Repr

structure SqlSessionStorageWriter where
  path : Path
  closed : Bool
  pendingChain : List Statement
deriving DecidableEq, Repr

/-- What a call of the storage still has to run.  `drain` waits for the tracked ones. -/
structure Call where
  tracked : Bool
  statements : List Statement
deriving DecidableEq, Repr

structure State where
  mirror : Rows
  rows : Rows
  writers : List SqlSessionStorageWriter
  calls : List Call

/- `create` and its `refresh`. -/
def create (rows : Rows) : State := { mirror := rows, rows := rows, writers := [], calls := [] }

def State.issue (st : State) (tracked : Bool) (statements : List Statement) : State :=
  { st with calls := st.calls ++ [⟨tracked,statements⟩] }

def State.writeTextSync (st : State) (path : Path) (content : String) : State :=
  { st with mirror := update st.mirror path (some content) }.issue true [.upsertReplace path content]

def State.writeText (st : State) (path : Path) (content : String) : State :=
  { st with mirror := update st.mirror path (some content) }.issue false [.upsertReplace path content]

/- Throws when there is no such file. -/
def State.rename (st : State) (src dst : Path) : State :=
  match st.mirror src with
  | none => st
  | some entry =>
      let conflicting := if (st.mirror dst).isSome then [Statement.delete dst] else []
      { st with mirror := update (update st.mirror src none) dst (some entry) }.issue false
        (conflicting ++ [Statement.rename dst src])

/- The statement is sent also where the call throws in the end. -/
def State.unlink (st : State) (path : Path) : State :=
  { st with mirror := update st.mirror path none }.issue false [.delete path]

def State.mirrorAppend (st : State) (path : Path) (line : String) : State :=
  { st with mirror :=
      update st.mirror path (some (match st.mirror path with | some content => content ++ line | none => line)) }

def State.mirrorTruncate (st : State) (path : Path) : State :=
  { st with mirror := update st.mirror path (some "") }

def State.openWriter (st : State) (path : Path) : Flags → State
  | .a => { st with writers := st.writers ++ [⟨path,false,[]⟩] }
  | .w =>
      let st := st.mirrorTruncate path
      { st with writers := st.writers ++ [⟨path,false,[.upsertReplace path ""]⟩] }

/- `writeLineSync` and `writeLine`; a closed writer throws. -/
def State.writeLine (st : State) (index : Nat) (line : String) : Option State :=
  match st.writers[index]? with
  | none => none
  | some writer =>
      if writer.closed then some st
      else
        let st := st.mirrorAppend writer.path line
        some { st with
          writers := st.writers.set index
            { writer with pendingChain := writer.pendingChain ++ [.upsertAppend writer.path line] } }

def State.close (st : State) (index : Nat) : Option State :=
  match st.writers[index]? with
  | none => none
  | some writer => some { st with writers := st.writers.set index { writer with closed := true } }

def State.execute (st : State) (statement : Statement) : Option State :=
  if statement.succeeds st.rows then some { st with rows := statement.execute st.rows } else none

/- The database acknowledges the first statement of a writer's chain, or of a call. -/
def State.writerDone (st : State) (index : Nat) : Option State :=
  match st.writers[index]? with
  | some writer =>
      match writer.pendingChain with
      | statement :: rest =>
          { st with writers := st.writers.set index { writer with pendingChain := rest } }.execute statement
      | [] => none
  | none => none

def State.callDone (st : State) (index : Nat) : Option State :=
  match st.calls[index]? with
  | some call =>
      match call.statements with
      | statement :: rest =>
          { st with calls := st.calls.set index { call with statements := rest } }.execute statement
      | [] => none
  | none => none

inductive Event where
  | writeTextSync : Path → String → Event
  | writeText : Path → String → Event
  | rename : Path → Path → Event
  | unlink : Path → Event
  | openWriter : Path → Flags → Event
  | writeLine : Nat → String → Event
  | close : Nat → Event
  | writerDone : Nat → Event
  | callDone : Nat → Event
deriving DecidableEq, Repr

def step (st : State) : Event → Option State
  | .writeTextSync path content => some (st.writeTextSync path content)
  | .writeText path content => some (st.writeText path content)
  | .rename src dst => some (st.rename src dst)
  | .unlink path => some (st.unlink path)
  | .openWriter path flags => some (st.openWriter path flags)
  | .writeLine index line => st.writeLine index line
  | .close index => st.close index
  | .writerDone index => st.writerDone index
  | .callDone index => st.callDone index

/- No event of the run is impossible, and no statement of it fails. -/
def run (st : State) : List Event → Option State
  | [] => some st
  | event :: rest => (step st event).bind fun next => run next rest

/- `drain` has resolved. -/
def State.drained (st : State) : Bool :=
  st.writers.all (·.pendingChain.isEmpty) && st.calls.all fun call => !call.tracked || call.statements.isEmpty

/- The chain a statement waits on: a writer's or a call's own. -/
abbrev Chain := Nat ⊕ Nat

def State.waiting (st : State) : Chain → List Statement
  | .inl index => (st.writers[index]?.map (·.pendingChain)).getD []
  | .inr index => (st.calls[index]?.map (·.statements)).getD []

/- What waits on the chains other than the writer's own. -/
def State.others (st : State) (own : Option Nat) : List Statement :=
  let writers := match own with
    | some index => st.writers.eraseIdx index
    | none => st.writers
  writers.flatMap (·.pendingChain) ++ st.calls.flatMap (·.statements)

/- No statement on its way on another chain touches the path. -/
def State.free (st : State) (own : Option Nat) (path : Path) : Bool :=
  (st.others own).all fun statement => !statement.paths.contains path

/- A call meets the paths it touches free, and renames no file to its own name. -/
def Clean (st : State) : Event → Bool
  | .writeTextSync path _ => st.free none path
  | .writeText path _ => st.free none path
  | .rename src dst => (st.mirror src).isNone || (src != dst && st.free none src && st.free none dst)
  | .unlink path => st.free none path
  | .openWriter _ .a => true
  | .openWriter path .w => st.free none path
  | .writeLine index _ =>
      match st.writers[index]? with
      | some writer => writer.closed || st.free (some index) writer.path
      | none => true
  | .close _ => true
  | .writerDone _ => true
  | .callDone _ => true

def CleanRun (st : State) : List Event → Prop
  | [] => True
  | event :: rest => Clean st event ∧ ∀ next ∈ step st event, CleanRun next rest

def decideCleanRun : ∀ (events : List Event) (st : State), Decidable (CleanRun st events)
  | [], _ => .isTrue trivial
  | event :: rest, st =>
      have := fun next => decideCleanRun rest next
      inferInstanceAs (Decidable (Clean st event = true ∧ ∀ next ∈ step st event, CleanRun next rest))

instance (st : State) (events : List Event) : Decidable (CleanRun st events) := decideCleanRun events st

/- Every rename, delete and asynchronous write has been awaited. -/
def State.awaited (st : State) : Bool := st.calls.all fun call => call.tracked || call.statements.isEmpty

/- A statement reads and changes the rows of its paths only. -/

theorem execute_outside (statement : Statement) (rows : Rows) (path : Path) (apart : path ∉ statement.paths) :
    statement.execute rows path = rows path := by
  cases statement with
  | upsertReplace key content =>
    have differs : path ≠ key := by simpa [Statement.paths] using apart
    simp [Statement.execute, differs]
  | upsertAppend key chunk =>
    have differs : path ≠ key := by simpa [Statement.paths] using apart
    simp [Statement.execute, differs]
  | delete key =>
    have differs : path ≠ key := by simpa [Statement.paths] using apart
    simp [Statement.execute, differs]
  | rename dst src =>
    have differs : path ≠ dst ∧ path ≠ src := by simpa [Statement.paths] using apart
    cases held : rows src with
    | none => simp [Statement.execute, held]
    | some content => simp [Statement.execute, held, differs.1, differs.2]

theorem execute_inside (statement : Statement) (one two : Rows)
    (agree : ∀ path ∈ statement.paths, one path = two path) (path : Path) (touches : path ∈ statement.paths) :
    statement.execute one path = statement.execute two path := by
  cases statement with
  | upsertReplace key content =>
    obtain rfl : path = key := List.mem_singleton.mp touches
    simp [Statement.execute]
  | upsertAppend key chunk =>
    obtain rfl : path = key := List.mem_singleton.mp touches
    simp [Statement.execute, agree path touches]
  | delete key =>
    obtain rfl : path = key := List.mem_singleton.mp touches
    simp [Statement.execute]
  | rename dst src =>
    have same : one src = two src := agree src (List.mem_cons_of_mem dst List.mem_cons_self)
    simp only [Statement.execute, same]
    cases two src with
    | none => exact agree path touches
    | some content =>
      simp only [update_apply]
      split_ifs with atDst atSrc
      · rfl
      · rfl
      · exact agree path touches

def effects : Effects Path (Option String) Statement where
  run statement rows := statement.execute rows
  touches statement := { path | path ∈ statement.paths }
  outside := execute_outside
  inside := execute_inside

theorem mem_touched {path : Path} {statements : List Statement} :
    path ∈ effects.touched statements ↔ ∃ statement ∈ statements, path ∈ statement.paths := Iff.rfl

/- The chains of a state -/

theorem waiting_issue (st : State) (tracked : Bool) (statements : List Statement) :
    (st.issue tracked statements).waiting = update st.waiting (.inr st.calls.length)
      (st.waiting (.inr st.calls.length) ++ statements) := by
  funext chain
  cases chain with
  | inl index => rfl
  | inr index =>
    by_cases last : index = st.calls.length
    · subst last
      simp [State.waiting, State.issue]
    · have differs : (Sum.inr index : Chain) ≠ .inr st.calls.length := fun same => last (Sum.inr.inj same)
      rw [update_of_ne differs]
      simp only [State.waiting, State.issue, List.getElem?_append]
      split_ifs with inside
      · rfl
      · have past : index - st.calls.length ≠ 0 := by omega
        have outside : st.calls[index]? = none := List.getElem?_eq_none (by omega)
        simp [past, outside]

theorem waiting_push (st : State) (path : Path) (closed : Bool) (statements : List Statement) :
    { st with writers := st.writers ++ [SqlSessionStorageWriter.mk path closed statements] }.waiting =
      update st.waiting (.inl st.writers.length) (st.waiting (.inl st.writers.length) ++ statements) := by
  funext chain
  cases chain with
  | inr index => rfl
  | inl index =>
    by_cases last : index = st.writers.length
    · subst last
      simp [State.waiting]
    · have differs : (Sum.inl index : Chain) ≠ .inl st.writers.length := fun same => last (Sum.inl.inj same)
      rw [update_of_ne differs]
      simp only [State.waiting, List.getElem?_append]
      split_ifs with inside
      · rfl
      · have past : index - st.writers.length ≠ 0 := by omega
        have outside : st.writers[index]? = none := List.getElem?_eq_none (by omega)
        simp [past, outside]

theorem waiting_set_writer (st : State) {index : Nat} {writer : SqlSessionStorageWriter}
    (found : st.writers[index]? = some writer) (changed : SqlSessionStorageWriter) :
    { st with writers := st.writers.set index changed }.waiting =
      update st.waiting (.inl index) changed.pendingChain := by
  obtain ⟨inside,-⟩ := List.getElem?_eq_some_iff.mp found
  funext chain
  cases chain with
  | inr other => rfl
  | inl other =>
    by_cases same : other = index
    · subst same
      simp [State.waiting, inside]
    · have differs : (Sum.inl other : Chain) ≠ .inl index := fun both => same (Sum.inl.inj both)
      rw [update_of_ne differs]
      simp [State.waiting, List.getElem?_set_ne (Ne.symm same)]

theorem waiting_set_call (st : State) {index : Nat} {call : Call} (found : st.calls[index]? = some call)
    (changed : Call) :
    { st with calls := st.calls.set index changed }.waiting = update st.waiting (.inr index) changed.statements := by
  obtain ⟨inside,-⟩ := List.getElem?_eq_some_iff.mp found
  funext chain
  cases chain with
  | inl other => rfl
  | inr other =>
    by_cases same : other = index
    · subst same
      simp [State.waiting, inside]
    · have differs : (Sum.inr other : Chain) ≠ .inr index := fun both => same (Sum.inr.inj both)
      rw [update_of_ne differs]
      simp [State.waiting, List.getElem?_set_ne (Ne.symm same)]

end SqlStorage
