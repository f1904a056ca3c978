import OpenAgents.Lib.FallibleState
import OpenAgents.Session.SqlStorage

/- Renaming a session file in the SQL and the Redis storage: the commands sent, the mirror changed
   ahead of them, and the rollback of the mirror when one of them fails.  A command that fails has
   changed nothing. -/
namespace RemoteRename
open FallibleState Function
open SqlStorage (Path Statement)

structure MirrorEntry where
  content : String
  mtimeMs : Nat
deriving DecidableEq, Repr

abbrev Mirror := Path → Option MirrorEntry

inductive Failure where
  | enoent : Path → Failure
  | command : Failure
deriving DecidableEq, Repr

/-- The remote side, and how many commands it has been sent. -/
structure World (R : Type) where
  mirror : Mirror
  remote : R
  sent : Nat

variable {R : Type}

/- `fails` picks the commands that fail. -/
def send (fails : Nat → Bool) (execute : R → Option R) : Action (World R) Failure Unit := fun w =>
  match if fails w.sent then none else execute w.remote with
  | some remote => (.ok (), { w with remote := remote, sent := w.sent + 1 })
  | none => (.error .command, { w with sent := w.sent + 1 })

theorem send_refused {fails : Nat → Bool} (execute : R → Option R) {w : World R} (refused : fails w.sent = true) :
    send fails execute w = (.error .command, { w with sent := w.sent + 1 }) := by
  simp [send, refused]

theorem send_done {fails : Nat → Bool} {execute : R → Option R} {w : World R} {remote : R}
    (passed : fails w.sent = false) (ran : execute w.remote = some remote) :
    send fails execute w = (.ok (), { w with remote := remote, sent := w.sent + 1 }) := by
  simp [send, passed, ran]

/- The mirror before the commands are sent. -/
def moved (mirror : Mirror) (src dst : Path) (entry : MirrorEntry) : Mirror :=
  update (update mirror src none) dst (some entry)

namespace Sql

/- The table by its primary key. -/
abbrev Rows := Path → Option MirrorEntry

inductive Command where
  | delete : Path → Command
  /- Destination, its time and source, as the query binds them. -/
  | rename : Path → Nat → Path → Command
deriving DecidableEq, Repr

/- An update onto the key of another row fails. -/
def Command.execute (rows : Rows) : Command → Option Rows
  | .delete path => some (update rows path none)
  | .rename dst mtimeMs src =>
      match rows src with
      | none => some rows
      | some row =>
          if dst = src ∨ rows dst = none then
            some (update (update rows src none) dst (some { row with mtimeMs := mtimeMs }))
          else none

def sendRename (fails : Nat → Bool) (src dst : Path) (entry : MirrorEntry) (dstPrev : Option MirrorEntry) :
    Action (World Rows) Failure Unit := do
  if dstPrev.isSome then send fails fun rows => (Command.delete dst).execute rows
  send fails fun rows => (Command.rename dst entry.mtimeMs src).execute rows

def rename (fails : Nat → Bool) (src dst : Path) : Action (World Rows) Failure Unit := fun w =>
  match w.mirror src with
  | none => (.error (.enoent src), w)
  | some entry =>
      let dstPrev := w.mirror dst
      match sendRename fails src dst entry dstPrev { w with mirror := moved w.mirror src dst entry } with
      | (.ok (), w) => (.ok (), w)
      | (.error failure, w) =>
          let mirror := update w.mirror dst none
          let mirror := match dstPrev with
            | some prev => update mirror dst (some prev)
            | none => mirror
          (.error failure, { w with mirror := update mirror src (some entry) })

def Mirrored (w : World Rows) : Prop := w.mirror = w.remote

/-- A rename that throws leaves the source and the destination as they were, in the mirror and in the table. -/
def Atomic (fails : Nat → Bool) (src dst : Path) (w : World Rows) : Prop :=
  ∀ failure after, rename fails src dst w = (.error failure, after) →
    ∀ path, path = src ∨ path = dst → after.mirror path = w.mirror path ∧ after.remote path = w.remote path

/- Without its times a table is one of the storage's. -/
def contents (rows : Rows) : SqlStorage.Rows := fun path => (rows path).map MirrorEntry.content

def Command.statement : Command → Statement
  | .delete path => .delete path
  | .rename dst _ src => .rename dst src

theorem contents_update (rows : Rows) (path : Path) (row : Option MirrorEntry) :
    contents (update rows path row) = update (contents rows) path (row.map MirrorEntry.content) := by
  funext other
  unfold contents
  by_cases same : other = path
  · rw [same, update_self, update_self]
  · rw [update_of_ne same, update_of_ne same]

theorem execute_contents {rows next : Rows} {command : Command} (ran : command.execute rows = some next) :
    command.statement.succeeds (contents rows) = true ∧
      contents next = command.statement.execute (contents rows) := by
  cases command with
  | delete path =>
    cases ran
    exact ⟨rfl,contents_update rows path none⟩
  | rename dst mtimeMs src =>
    unfold Command.statement Statement.execute
    cases held : rows src with
    | none =>
      simp only [Command.execute, held] at ran
      cases ran
      simp [Statement.succeeds, contents, held]
    | some row =>
      simp only [Command.execute, held] at ran
      have shown : contents rows src = some row.content := by simp [contents, held]
      split at ran
      · rename_i free
        cases ran
        dsimp only
        rw [shown, contents_update, contents_update]
        refine ⟨?_,rfl⟩
        rcases free with rfl | free
        · simp [Statement.succeeds]
        · simp [Statement.succeeds, contents, free]
      · cases ran

/- The mirror after the rollback. -/
def restored (mirror : Mirror) (src dst : Path) (entry : MirrorEntry) : Mirror :=
  let cleared := update (moved mirror src dst entry) dst none
  update (match mirror dst with | some prev => update cleared dst (some prev) | none => cleared) src (some entry)

theorem restored_same {mirror : Mirror} {src dst : Path} {entry : MirrorEntry} (held : mirror src = some entry)
    {path : Path} (among : path = src ∨ path = dst) : restored mirror src dst entry path = mirror path := by
  unfold restored
  by_cases atSrc : path = src
  · rw [atSrc, update_self, held]
  · rw [update_of_ne atSrc]
    obtain rfl : path = dst := among.resolve_left atSrc
    cases prev : mirror path with
    | none => exact update_self ..
    | some row => exact update_self ..

/- The update fails after the delete has gone through. -/
def Torn (fails : Nat → Bool) (src dst : Path) (w : World Rows) : Prop :=
  (w.mirror src).isSome = true ∧ (w.mirror dst).isSome = true ∧ fails w.sent = false ∧ fails (w.sent + 1) = true

theorem update_succeeds {rows : Rows} (dst src : Path) (mtimeMs : Nat) (free : rows dst = none) :
    ∃ next, (Command.rename dst mtimeMs src).execute rows = some next := by
  cases held : rows src with
  | none => exact ⟨rows,by simp only [Command.execute, held]⟩
  | some row =>
    refine ⟨update (update rows src none) dst (some { row with mtimeMs := mtimeMs }),?_⟩
    simp only [Command.execute, held, free, or_true, if_true]

/-- The three outcomes of the commands, with a row at the destination exactly when the mirror has one. -/
theorem sendRename_outcome (fails : Nat → Bool) (src dst : Path) (entry : MirrorEntry)
    (dstPrev : Option MirrorEntry) (w : World Rows) (same : w.remote dst = dstPrev) :
    (∃ after, sendRename fails src dst entry dstPrev w = (.ok (), after) ∧
      (dstPrev.isSome = true → fails (w.sent + 1) = false)) ∨
    (∃ sent, sendRename fails src dst entry dstPrev w = (.error .command, { w with sent := sent }) ∧
      fails w.sent = true) ∨
    ∃ sent, sendRename fails src dst entry dstPrev w =
        (.error .command, { w with remote := update w.remote dst none, sent := sent }) ∧
      dstPrev.isSome = true ∧ fails w.sent = false ∧ fails (w.sent + 1) = true := by
  unfold sendRename
  cases first : fails w.sent with
  | true =>
    refine .inr (.inl ⟨w.sent + 1,?_,rfl⟩)
    cases prev : dstPrev with
    | none =>
      simp only [Option.isSome_none, Bool.false_eq_true, if_false]
      exact send_refused _ first
    | some row =>
      simp only [Option.isSome_some, if_true]
      rw [bind_run, send_refused _ first]
  | false =>
    cases prev : dstPrev with
    | none =>
      obtain ⟨next,ran⟩ := update_succeeds dst src entry.mtimeMs (same.trans prev)
      refine .inl ⟨{ w with remote := next, sent := w.sent + 1 },?_,by simp⟩
      simp only [Option.isSome_none, Bool.false_eq_true, if_false]
      exact send_done first ran
    | some row =>
      have deleted : send fails (fun rows => (Command.delete dst).execute rows) w =
          (.ok (), { w with remote := update w.remote dst none, sent := w.sent + 1 }) := send_done first rfl
      simp only [Option.isSome_some, if_true]
      rw [bind_run, deleted]
      cases second : fails (w.sent + 1) with
      | true =>
        refine .inr (.inr ⟨w.sent + 1 + 1,?_,trivial,trivial,rfl⟩)
        exact send_refused _ second
      | false =>
        obtain ⟨next,ran⟩ := @update_succeeds (update w.remote dst none) dst src entry.mtimeMs (update_self ..)
        exact .inl ⟨_,send_done second ran,fun _ => rfl⟩

theorem atomic_iff (fails : Nat → Bool) (src dst : Path) (w : World Rows) (mirrored : Mirrored w) :
    Atomic fails src dst w ↔ ¬Torn fails src dst w := by
  unfold Atomic Torn rename
  cases held : w.mirror src with
  | none =>
    refine iff_of_true ?_ (by simp)
    rintro failure after failed path -
    cases failed
    exact ⟨rfl,rfl⟩
  | some entry =>
    have kept : ∀ path, path = src ∨ path = dst → restored w.mirror src dst entry path = w.mirror path :=
      fun path among => restored_same held among
    have same : w.remote dst = w.mirror dst := by rw [mirrored]
    rcases sendRename_outcome fails src dst entry (w.mirror dst)
      { w with mirror := moved w.mirror src dst entry } same with
      ⟨after,done,passes⟩ | ⟨sent,refused,first⟩ | ⟨sent,torn,prev,first,second⟩
    · dsimp only
      rw [done]
      refine iff_of_true (fun _ _ failed => by cases failed) ?_
      rintro ⟨-,prev,-,second⟩
      rw [passes prev] at second
      cases second
    · dsimp only
      rw [refused]
      refine iff_of_true ?_ ?_
      · rintro failure after failed path among
        cases failed
        exact ⟨kept path among,rfl⟩
      · rintro ⟨-,-,passed,-⟩
        rw [first] at passed
        cases passed
    · dsimp only
      rw [torn]
      refine iff_of_false ?_ (not_not.mpr ⟨rfl,prev,first,second⟩)
      intro atomic
      have gone := (atomic _ _ rfl dst (.inr rfl)).2
      dsimp only at gone
      rw [update_self, same] at gone
      rw [← gone] at prev
      cases prev

end Sql

namespace Redis

/-- A string for each file, and the hash of their times. -/
structure Keys where
  files : Path → Option String
  times : Path → Option Nat

inductive Command where
  | rename : Path → Path → Command
  | hdel : Path → Command
  | hset : Path → Nat → Command
deriving DecidableEq, Repr

/- Renaming a missing key fails; an existing destination is overwritten. -/
def Command.execute (keys : Keys) : Command → Option Keys
  | .rename src dst =>
      match keys.files src with
      | none => none
      | some content => some { keys with files := update (update keys.files src none) dst (some content) }
  | .hdel path => some { keys with times := update keys.times path none }
  | .hset path mtimeMs => some { keys with times := update keys.times path (some mtimeMs) }

def rename (fails : Nat → Bool) (src dst : Path) : Action (World Keys) Failure Unit := fun w =>
  match w.mirror src with
  | none => (.error (.enoent src), w)
  | some entry =>
      match send fails (fun keys => (Command.rename src dst).execute keys)
          { w with mirror := moved w.mirror src dst entry } with
      | (.error failure, w) =>
          (.error failure, { w with mirror := update (update w.mirror dst none) src (some entry) })
      | (.ok (), w) =>
          -- A failure here is only logged.
          let times : Action (World Keys) Failure Unit := do
            send fails fun keys => (Command.hdel src).execute keys
            send fails fun keys => (Command.hset dst entry.mtimeMs).execute keys
          (.ok (), (times w).2)

def Mirrored (w : World Keys) : Prop :=
  ∀ path, w.remote.files path = (w.mirror path).map MirrorEntry.content ∧
    w.remote.times path = (w.mirror path).map MirrorEntry.mtimeMs

def Atomic (fails : Nat → Bool) (src dst : Path) (w : World Keys) : Prop :=
  ∀ failure after, rename fails src dst w = (.error failure, after) →
    ∀ path, path = src ∨ path = dst → after.mirror path = w.mirror path ∧
      after.remote.files path = w.remote.files path ∧ after.remote.times path = w.remote.times path

/- The destination's mirror entry is overwritten before the command and not put back. -/
def Forgotten (fails : Nat → Bool) (src dst : Path) (w : World Keys) : Prop :=
  (w.mirror src).isSome = true ∧ (w.mirror dst).isSome = true ∧ src ≠ dst ∧ fails w.sent = true

theorem atomic_iff (fails : Nat → Bool) (src dst : Path) (w : World Keys) (mirrored : Mirrored w) :
    Atomic fails src dst w ↔ ¬Forgotten fails src dst w := by
  unfold Atomic Forgotten rename
  cases held : w.mirror src with
  | none =>
    refine iff_of_true ?_ (by simp)
    rintro failure after failed path -
    cases failed
    exact ⟨rfl,rfl,rfl⟩
  | some entry =>
    dsimp only
    cases first : fails w.sent with
    | false =>
      have there : w.remote.files src = some entry.content := by rw [(mirrored src).1, held, Option.map_some]
      obtain ⟨next,ran⟩ : ∃ next, (Command.rename src dst).execute w.remote = some next :=
        ⟨_,by simp only [Command.execute, there]; rfl⟩
      have renamed : send fails (fun keys => (Command.rename src dst).execute keys)
          { w with mirror := moved w.mirror src dst entry } = (.ok (), _) := send_done first ran
      rw [renamed]
      refine iff_of_true (fun _ _ failed => by cases failed) ?_
      rintro ⟨-,-,-,refused⟩
      cases refused
    | true =>
      have refused : send fails (fun keys => (Command.rename src dst).execute keys)
          { w with mirror := moved w.mirror src dst entry } = (.error .command, _) := send_refused _ first
      rw [refused]
      dsimp only
      constructor
      · rintro atomic ⟨-,prev,apart,-⟩
        have back := (atomic _ _ rfl dst (.inr rfl)).1
        dsimp only at back
        rw [update_of_ne (Ne.symm apart), update_self] at back
        rw [← back] at prev
        cases prev
      · rintro kept failure after failed path among
        cases failed
        refine ⟨?_,rfl,rfl⟩
        dsimp only
        by_cases atSrc : path = src
        · rw [atSrc, update_self, held]
        · obtain rfl : path = dst := among.resolve_left atSrc
          rw [update_of_ne atSrc, update_self]
          by_contra lost
          refine kept ⟨rfl,?_,Ne.symm atSrc,rfl⟩
          exact Option.isSome_iff_ne_none.mpr (Ne.symm lost)

end Redis

/-- A throwing rename leaves the source and the destination as they were: in the SQL storage unless the update
fails behind a delete of the destination, in the Redis storage unless there is a destination. -/
theorem rename_atomic_iff (fails : Nat → Bool) (src dst : Path) (sql : World Sql.Rows) (redis : World Redis.Keys)
    (table : Sql.Mirrored sql) (keys : Redis.Mirrored redis) :
    (Sql.Atomic fails src dst sql ↔ ¬Sql.Torn fails src dst sql) ∧
      (Redis.Atomic fails src dst redis ↔ ¬Redis.Forgotten fails src dst redis) :=
  ⟨Sql.atomic_iff fails src dst sql table,Redis.atomic_iff fails src dst redis keys⟩

/- Two session files, in the mirror as in the remote storage. -/
def twoFiles : Mirror := fun path => if path = "a" ∨ path = "b" then some ⟨path,0⟩ else none

def twoKeys : Redis.Keys :=
  ⟨fun path => (twoFiles path).map MirrorEntry.content,fun path => (twoFiles path).map MirrorEntry.mtimeMs⟩

theorem rename_atomic_iff_new : Sql.Atomic (fun _ => true) "a" "c" ⟨twoFiles,twoFiles,0⟩ ∧
    Redis.Atomic (fun _ => true) "a" "c" ⟨twoFiles,twoKeys,0⟩ := by
  have exact' := rename_atomic_iff (fun _ => true) "a" "c" ⟨twoFiles,twoFiles,0⟩ ⟨twoFiles,twoKeys,0⟩ rfl
    fun _ => ⟨rfl,rfl⟩
  refine ⟨exact'.1.mpr ?_,exact'.2.mpr ?_⟩
  · rintro ⟨-,prev,-,-⟩
    exact absurd prev (by decide)
  · rintro ⟨-,prev,-,-⟩
    exact absurd prev (by decide)

theorem destination_lost :
    (¬∀ (fails : Nat → Bool) (src dst : Path) (w : World Sql.Rows), Sql.Mirrored w → Sql.Atomic fails src dst w) ∧
    ¬∀ (fails : Nat → Bool) (src dst : Path) (w : World Redis.Keys),
      Redis.Mirrored w → Redis.Atomic fails src dst w := by
  constructor
  · intro claim
    have kept := claim (fun sent => sent == 1) "a" "b" ⟨twoFiles,twoFiles,0⟩ rfl
    exact (Sql.atomic_iff _ "a" "b" ⟨twoFiles,twoFiles,0⟩ rfl).mp kept ⟨by decide,by decide,rfl,rfl⟩
  · intro claim
    have kept := claim (fun _ => true) "a" "b" ⟨twoFiles,twoKeys,0⟩ fun _ => ⟨rfl,rfl⟩
    exact (Redis.atomic_iff _ "a" "b" ⟨twoFiles,twoKeys,0⟩ fun _ => ⟨rfl,rfl⟩).mp kept
      ⟨by decide,by decide,by decide,rfl⟩

end RemoteRename
