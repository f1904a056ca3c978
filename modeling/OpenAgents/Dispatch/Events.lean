import Mathlib.Data.List.Basic

/- The event table the workers are fed from. Event type, repository and payload only
   choose the handler's work and are left out, as are the two timestamps nothing compares. -/
namespace Dispatch

abbrev PyString := List Char

instance : LawfulBEq PyString := inferInstance

inductive EventState where
  | queued
  | running
  | done
  | failed
  | skipped
  deriving DecidableEq, Repr

def inactiveEventStates : List EventState := [.done, .failed, .skipped]

structure EventRow where
  deliveryId : PyString
  issueKey : Option PyString
  receivedAt : Nat
  state : EventState
  attempts : Nat
  lastError : Option PyString
  deriving DecidableEq, Repr

/- `row.issue_key or row.delivery_id`; an empty key is false. -/
def EventRow.key (row : EventRow) : PyString :=
  match row.issueKey with
  | none => row.deliveryId
  | some issueKey => if issueKey.isEmpty then row.deliveryId else issueKey

abbrev Database := List EventRow

def rowOf (db : Database) (deliveryId : PyString) : Option EventRow := db.find? fun row => row.deliveryId = deliveryId

def stateOf (db : Database) (deliveryId : PyString) : Option EventState := (rowOf db deliveryId).map EventRow.state

def updateRow (db : Database) (deliveryId : PyString) (change : EventRow → EventRow) : Database :=
  db.map fun row => if row.deliveryId = deliveryId then change row else row

/- `INSERT OR IGNORE`: a delivery that is known already is left as it is. -/
def recordEvent (db : Database) (deliveryId : PyString) (issueKey : Option PyString) (now : Nat) (state : EventState)
    (lastError : Option PyString) : Database :=
  if (rowOf db deliveryId).isSome then db
  else db ++ [⟨deliveryId,issueKey,now,state,0,lastError⟩]

/- `ORDER BY received_at LIMIT 1`; the earlier row wins a tie. -/
def oldest : List EventRow → Option EventRow
  | [] => none
  | row :: rest =>
      match oldest rest with
      | none => some row
      | some other => if other.receivedAt < row.receivedAt then some other else some row

def queuedRows (db : Database) : List EventRow := db.filter fun row => row.state = .queued

def claimNextEvent (db : Database) : Option EventRow × Database :=
  match oldest (queuedRows db) with
  | none => (none, db)
  | some row =>
      (some { row with state := .running, attempts := row.attempts + 1 },
        updateRow db row.deliveryId fun row => { row with state := .running, attempts := row.attempts + 1 })

def markEvent (db : Database) (deliveryId : PyString) (state : EventState) (error : Option PyString) : Database :=
  updateRow db deliveryId fun row => { row with state, lastError := error }

def requeueEvent (db : Database) (deliveryId : PyString) (fromStates : List EventState) : Database :=
  updateRow db deliveryId fun row => if row.state ∈ fromStates then { row with state := .queued } else row

def resetStuckRunning (db : Database) : Database :=
  db.map fun row => if row.state = .running then { row with state := .queued } else row

/- A change of a row that an `UPDATE` of its state, counter or error makes. -/
def KeepsKey (change : EventRow → EventRow) : Prop :=
  ∀ row, (change row).deliveryId = row.deliveryId ∧ (change row).issueKey = row.issueKey

variable {change : EventRow → EventRow} {db : Database} {deliveryId other : PyString} {row : EventRow}

theorem key_kept (keeps : KeepsKey change) (row : EventRow) : (change row).key = row.key := by
  unfold EventRow.key
  rw [(keeps row).1, (keeps row).2]

theorem ids_update (db : Database) (deliveryId : PyString) (keeps : KeepsKey change) :
    (updateRow db deliveryId change).map EventRow.deliveryId = db.map EventRow.deliveryId := by
  rw [updateRow, List.map_map]
  refine List.map_congr_left fun row _ => ?_
  simp only [Function.comp_apply]
  split
  · exact (keeps row).1
  · rfl

theorem ids_reset (db : Database) : (resetStuckRunning db).map EventRow.deliveryId = db.map EventRow.deliveryId := by
  rw [resetStuckRunning, List.map_map]
  refine List.map_congr_left fun row _ => ?_
  simp only [Function.comp_apply]
  split <;> rfl

theorem ids_record (ids : (db.map EventRow.deliveryId).Nodup) (deliveryId : PyString) (issueKey : Option PyString)
    (now : Nat) (state : EventState) (lastError : Option PyString) :
    ((recordEvent db deliveryId issueKey now state lastError).map EventRow.deliveryId).Nodup := by
  unfold recordEvent
  cases seen : rowOf db deliveryId with
  | some row => simpa using ids
  | none =>
    have absent : ∀ row ∈ db, row.deliveryId ≠ deliveryId := by
      simpa [rowOf] using seen
    have new : [deliveryId].Nodup := by simp
    have nodup := List.nodup_append.mpr ⟨ids,new,by
      intro old mem id last same
      obtain ⟨row,inside,rfl⟩ := List.mem_map.mp mem
      exact absent row inside (same.trans (List.mem_singleton.mp last))⟩
    simpa using nodup

theorem rowOf_cons (row : EventRow) (db : Database) (deliveryId : PyString) :
    rowOf (row :: db) deliveryId = if row.deliveryId = deliveryId then some row else rowOf db deliveryId := by
  rw [rowOf, List.find?_cons]
  by_cases here : row.deliveryId = deliveryId <;> simp [here, rowOf]

theorem rowOf_update (db : Database) (deliveryId other : PyString) (keeps : KeepsKey change) :
    rowOf (updateRow db deliveryId change) other =
      if other = deliveryId then (rowOf db other).map change else rowOf db other := by
  induction db with
  | nil => simp [updateRow, rowOf]
  | cons row db ih =>
    have rest : updateRow (row :: db) deliveryId change =
        (if row.deliveryId = deliveryId then change row else row) :: updateRow db deliveryId change := rfl
    rw [rest, rowOf_cons, rowOf_cons, ih]
    by_cases here : row.deliveryId = deliveryId
    · rw [if_pos here, (keeps row).1]
      by_cases wanted : row.deliveryId = other
      · rw [if_pos wanted, if_pos wanted, if_pos (wanted.symm.trans here)]
        rfl
      · rw [if_neg wanted, if_neg wanted]
    · rw [if_neg here]
      by_cases wanted : row.deliveryId = other
      · rw [if_pos wanted, if_pos wanted, if_neg fun same => here (wanted.trans same)]
      · rw [if_neg wanted, if_neg wanted]

theorem stateOf_update (db : Database) (keeps : KeepsKey change) (ne : other ≠ deliveryId) : stateOf (updateRow db deliveryId change) other = stateOf db other := by
  unfold stateOf
  rw [rowOf_update db deliveryId other keeps, if_neg ne]

theorem rowOf_kept (deliveryId : PyString) (keeps : KeepsKey change) (known : rowOf db other = some row) :
    ∃ current, rowOf (updateRow db deliveryId change) other = some current ∧ current.key = row.key := by
  rw [rowOf_update db deliveryId other keeps, known]
  by_cases here : other = deliveryId
  · exact ⟨change row,by rw [if_pos here]; rfl,key_kept keeps row⟩
  · exact ⟨row,by rw [if_neg here],rfl⟩

theorem mark_keeps (state : EventState) (error : Option PyString) :
    KeepsKey fun row => { row with state, lastError := error } := fun _ => ⟨rfl,rfl⟩

theorem claim_keeps : KeepsKey fun row => { row with state := .running, attempts := row.attempts + 1 } :=
  fun _ => ⟨rfl,rfl⟩

theorem requeue_keeps (fromStates : List EventState) :
    KeepsKey fun row => if row.state ∈ fromStates then { row with state := .queued } else row := by
  intro row
  dsimp only
  split
  · exact ⟨rfl,rfl⟩
  · exact ⟨rfl,rfl⟩

theorem stateOf_mark (known : rowOf db deliveryId = some row) (state : EventState) (error : Option PyString) : stateOf (markEvent db deliveryId state error) deliveryId = some state := by
  unfold stateOf markEvent
  rw [rowOf_update db deliveryId deliveryId (mark_keeps state error), if_pos rfl, known]
  rfl

theorem rowOf_mem (ids : (db.map EventRow.deliveryId).Nodup) (mem : row ∈ db) : rowOf db row.deliveryId = some row := by
  induction db with
  | nil => exact absurd mem List.not_mem_nil
  | cons first db ih =>
    rw [rowOf_cons]
    rw [List.map_cons, List.nodup_cons] at ids
    rcases List.mem_cons.mp mem with rfl | later
    · rw [if_pos rfl]
    · have other : first.deliveryId ≠ row.deliveryId := fun same =>
        ids.1 (same ▸ List.mem_map_of_mem later)
      rw [if_neg other]
      exact ih ids.2 later

theorem oldest_mem {rows : List EventRow} (found : oldest rows = some row) : row ∈ rows := by
  induction rows generalizing row with
  | nil => contradiction
  | cons first rows ih =>
    unfold oldest at found
    cases rest : oldest rows with
    | none =>
      rw [rest] at found
      cases found
      exact List.mem_cons_self
    | some other =>
      rw [rest] at found
      dsimp only at found
      split at found
      · cases found
        exact List.mem_cons_of_mem first (ih rest)
      · cases found
        exact List.mem_cons_self

theorem rowOf_record (db : Database) (deliveryId other : PyString) (issueKey : Option PyString) (now : Nat)
    (state : EventState) (lastError : Option PyString) :
    rowOf (recordEvent db deliveryId issueKey now state lastError) other =
      if other = deliveryId ∧ rowOf db other = none then some ⟨deliveryId,issueKey,now,state,0,lastError⟩
      else rowOf db other := by
  unfold recordEvent
  cases known : rowOf db deliveryId with
  | some row =>
    rw [if_pos (by rfl)]
    by_cases here : other = deliveryId ∧ rowOf db other = none
    · rw [here.1, known] at here
      exact absurd here.2 (by simp)
    · rw [if_neg here]
  | none =>
    have appended (row : EventRow) : rowOf (db ++ [row]) other =
        (rowOf db other).or (if row.deliveryId = other then some row else none) := by
      rw [rowOf, List.find?_append, ← rowOf]
      simp [List.find?_singleton]
    rw [if_neg (by simp), appended]
    by_cases same : other = deliveryId
    · subst same
      simp [known]
    · have other' : ¬ deliveryId = other := fun back => same back.symm
      cases rowOf db other <;> simp [same, other']

end Dispatch
