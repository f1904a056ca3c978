import OpenAgents.Dispatch.WorkerPool
import OpenAgents.Lib.Runs
import OpenAgents.Lib.LineSplice

/- What holds of the worker pool after any run: handlers of one issue exclude each other,
   nothing stays behind of a handler that is over, and its event is settled. -/
namespace Dispatch
open CheckedRuns LineSplice

def Handler.live (h : Handler) : Bool := h.phase != .ended

/- Its row is not marked yet. -/
def Handler.active (h : Handler) : Prop := h.phase = .waiting ∨ h.phase = .dispatching

def liveKeys (handlers : List Handler) : List PyString := (handlers.filter Handler.live).map Handler.key

def heldSlots (handlers : List Handler) : List Nat :=
  handlers.filterMap fun h => if h.phase = .dispatching then h.slotUid else none

def Settled (s : WorkerPool) (deliveryId : PyString) : Prop :=
  (stateOf s.db deliveryId = some .done ∨ stateOf s.db deliveryId = some .failed) ∧
    (deliveryId ∈ s.asked → stateOf s.db deliveryId = some .failed)

/-- What the pool promises outside shutdown: one handler a key, every key in flight owned by a
handler that is not over, every slot back exactly once, every event it handled settled. -/
structure Safe (s : WorkerPool) : Prop where
  exclusive : (liveKeys s.handlers).Nodup
  owned : ∀ key ∈ s.inflight, key ∈ liveKeys s.handlers
  returned : ∀ h ∈ s.handlers, h.phase = .ended → h.slotReturns = 1
  slots : ∀ pool, s.limiter = .slotPool pool → (pool.available ++ heldSlots s.handlers).Perm pool.slotUids
  settled : ∀ h ∈ s.handlers, h.phase = .ended → h.deliveryId ∉ s.retried → Settled s h.deliveryId

/-- No slot fails to be reaped, and no cancellation comes for an event that is marked done while its
handler has still to give its key back. -/
def StepFine (s : WorkerPool) : Step → Prop
  | .finish i _ reapFails => reapFails = true → ∀ h ∈ s.handlers[i]?, h.slotUid = none
  | .cancel deliveryId =>
      ∀ h ∈ s.handlers, h.deliveryId = deliveryId → h.phase = .releasing → stateOf s.db deliveryId ≠ some .done
  | _ => True

instance (s : WorkerPool) : (c : Step) → Decidable (StepFine s c)
  | .finish i _ reapFails => inferInstanceAs (Decidable (reapFails = true → ∀ h ∈ s.handlers[i]?, h.slotUid = none))
  | .cancel _ => inferInstanceAs (Decidable (∀ h ∈ s.handlers, _ → _ → _))
  | .record .. => .isTrue trivial
  | .claim => .isTrue trivial
  | .launch => .isTrue trivial
  | .resume => .isTrue trivial
  | .acquire _ => .isTrue trivial
  | .arm _ => .isTrue trivial
  | .disarm _ => .isTrue trivial
  | .release _ => .isTrue trivial
  | .retry _ => .isTrue trivial
  | .restart => .isTrue trivial

/- Keys, slots and rows are three invariants; the third uses the first. -/

structure KeysHeld (s : WorkerPool) : Prop where
  exclusive : (liveKeys s.handlers).Nodup
  held : ∀ key, key ∈ s.inflight ↔ key ∈ liveKeys s.handlers

def SlotsHeld : Limiter → List Handler → Prop
  | .slotPool pool, handlers =>
      pool.checkedOut.Perm (heldSlots handlers) ∧ (pool.available ++ pool.checkedOut).Perm pool.slotUids ∧
        ∀ h ∈ handlers, h.phase = .dispatching → h.slotUid = none → pool.slotUids = []
  | .semaphore _ _, _ => True

structure SlotsCounted (s : WorkerPool) : Prop where
  returns : ∀ h ∈ s.handlers, (h.active → h.slotReturns = 0) ∧ (¬ h.active → h.slotReturns = 1)
  slots : SlotsHeld s.limiter s.handlers

structure RowsMarked (s : WorkerPool) : Prop where
  ids : (s.db.map EventRow.deliveryId).Nodup
  keyed : ∀ h ∈ s.handlers, ∃ row, rowOf s.db h.deliveryId = some row ∧ row.key = h.key
  claimed : ∀ row, s.dispatcher = .claimed row → ∃ current, rowOf s.db row.deliveryId = some current ∧ current.key = row.key ∧
    (row.deliveryId ∉ s.retried → current.state = .running ∧ ∀ h ∈ s.handlers, h.deliveryId ≠ row.deliveryId)
  fresh : ∀ deliveryId, stateOf s.db deliveryId = some .queued → deliveryId ∉ s.retried →
    ∀ h ∈ s.handlers, h.deliveryId ≠ deliveryId
  running : ∀ h ∈ s.handlers, h.deliveryId ∉ s.retried → h.active → stateOf s.db h.deliveryId = some .running
  marked : ∀ h ∈ s.handlers, h.deliveryId ∉ s.retried → ¬ h.active → Settled s h.deliveryId
  heard : ∀ deliveryId ∈ s.asked, deliveryId ∉ s.retried →
    (∀ h ∈ s.handlers, h.deliveryId = deliveryId → h.active) → deliveryId ∈ s.cancelled

section keys

variable {g h : Handler} {i : Nat}

theorem mem_replaced {before after : List Handler} (mem : g ∈ before ++ h :: after) : g = h ∨ g ∈ before ++ after := by
  rcases List.mem_append.mp mem with early | late
  · exact .inr (List.mem_append_left _ early)
  · exact (List.mem_cons.mp late).imp_right (List.mem_append_right _)

theorem mem_around {before after : List Handler} (h : Handler) (mem : g ∈ before ++ after) : g ∈ before ++ h :: after :=
  List.mem_append.mpr ((List.mem_append.mp mem).imp_right (List.mem_cons_of_mem h))

theorem liveKeys_split (before after : List Handler) (h : Handler) :
    liveKeys (before ++ h :: after) = liveKeys before ++ ((if h.live then [h.key] else []) ++ liveKeys after) := by
  unfold liveKeys
  rw [List.filter_append, List.map_append, List.filter_cons]
  split <;> rfl

theorem mem_liveKeys {handlers : List Handler} (mem : h ∈ handlers) (live : h.live = true) : h.key ∈ liveKeys handlers :=
  List.mem_map_of_mem (List.mem_filter.mpr ⟨mem,live⟩)

theorem live_of_active (active : h.active) : h.live = true := by
  rcases active with waiting | dispatching
  · rw [Handler.live, waiting]
    rfl
  · rw [Handler.live, dispatching]
    rfl

/-- A handler that goes on keeps its key. -/
theorem keys_moved {s next : WorkerPool} (h' : Handler) (keys : KeysHeld s) (at' : s.handlers[i]? = some h)
    (same : h'.key = h.key) (live : h.live = true) (live' : h'.live = true) (inflight : next.inflight = s.inflight)
    (handlers : next.handlers = s.handlers.set i h') : KeysHeld next := by
  obtain ⟨before,after,split,set⟩ := set_split at'
  have unchanged : liveKeys next.handlers = liveKeys s.handlers := by
    rw [handlers, set, split, liveKeys_split, liveKeys_split, live, live', same]
  exact ⟨by rw [unchanged]; exact keys.exclusive,by rw [unchanged, inflight]; exact keys.held⟩

theorem keys_same {s next : WorkerPool} (keys : KeysHeld s) (inflight : next.inflight = s.inflight)
    (handlers : next.handlers = s.handlers) : KeysHeld next :=
  ⟨by rw [handlers]; exact keys.exclusive,by rw [inflight, handlers]; exact keys.held⟩

theorem keys_launched {s next : WorkerPool} {key : PyString} (keys : KeysHeld s) (free : key ∉ s.inflight)
    (mine : h.key = key) (live : h.live = true) (inflight : next.inflight = key :: s.inflight)
    (handlers : next.handlers = s.handlers ++ [h]) : KeysHeld next := by
  have grown : liveKeys next.handlers = liveKeys s.handlers ++ [key] := by
    rw [handlers, liveKeys_split, live, mine]
    rfl
  constructor
  · rw [grown, List.nodup_append]
    refine ⟨keys.exclusive,by simp,?_⟩
    intro old mem new last same
    rw [List.mem_singleton.mp last] at same
    exact free ((keys.held key).mpr (same ▸ mem))
  · intro other
    rw [inflight, grown, List.mem_cons, List.mem_append, List.mem_singleton, keys.held, or_comm]

theorem keys_released {s next : WorkerPool} (h' : Handler) (keys : KeysHeld s) (at' : s.handlers[i]? = some h)
    (live : h.live = true) (past : h'.live = false) (inflight : next.inflight = discard h.key s.inflight)
    (handlers : next.handlers = s.handlers.set i h') : KeysHeld next := by
  obtain ⟨before,after,split,set⟩ := set_split at'
  have old : liveKeys s.handlers = liveKeys before ++ h.key :: liveKeys after := by
    rw [split, liveKeys_split, live]
    rfl
  have new : liveKeys next.handlers = liveKeys before ++ liveKeys after := by
    rw [handlers, set, liveKeys_split, past]
    rfl
  have exclusive := keys.exclusive
  rw [old, List.perm_middle.nodup_iff, List.nodup_cons] at exclusive
  constructor
  · rw [new]
    exact exclusive.2
  · intro key
    rw [inflight, new, discard, List.mem_filter, keys.held, old, decide_eq_true_eq]
    constructor
    · rintro ⟨mem,other⟩
      rcases List.mem_append.mp mem with early | late
      · exact List.mem_append_left _ early
      · exact List.mem_append_right _ ((List.mem_cons.mp late).resolve_left other)
    · intro mem
      refine ⟨?_,?_⟩
      · rcases List.mem_append.mp mem with early | late
        · exact List.mem_append_left _ early
        · exact List.mem_append_right _ (List.mem_cons_of_mem _ late)
      · rintro rfl
        exact exclusive.1 mem

end keys

section slots

theorem heldSlots_split (before after : List Handler) (h : Handler) : heldSlots (before ++ h :: after) =
    heldSlots before ++ ((if h.phase = .dispatching then h.slotUid else none).toList ++ heldSlots after) := by
  unfold heldSlots
  rw [List.filterMap_append, List.filterMap_cons]
  split <;> simp_all

theorem slots_acquire {limiter next : Limiter} {slotUid : Option Nat} {before after : List Handler} {h : Handler}
    (slots : SlotsHeld limiter (before ++ h :: after)) (waiting : h.phase = .waiting)
    (got : limiter.acquire = some (slotUid, next)) :
    SlotsHeld next (before ++ { h with phase := .dispatching, slotUid } :: after) := by
  cases limiter with
  | semaphore maxConcurrency value =>
    simp only [Limiter.acquire] at got
    by_cases full : value = 0
    · rw [if_pos full] at got
      contradiction
    · rw [if_neg full] at got
      cases got
      trivial
  | slotPool pool =>
    obtain ⟨checked,all,unslotted⟩ := slots
    rw [heldSlots_split, waiting] at checked
    simp only [Limiter.acquire, SlotPool.acquire, Option.map_eq_some_iff] at got
    obtain ⟨⟨granted,pool'⟩,taken,same⟩ := got
    cases same
    split at taken
    · rename_i empty
      cases taken
      refine ⟨?_,all,?_⟩
      · rw [heldSlots_split]
        simpa using checked
      · intro other mem dispatching none'
        simpa using empty
    · rename_i some'
      split at taken
      · contradiction
      · rename_i first rest free
        cases taken
        rw [free] at all
        refine ⟨?_,?_,?_⟩
        · rw [heldSlots_split]
          simp only [if_true, Option.toList_some, List.singleton_append]
          refine List.Perm.trans (List.Perm.cons first checked) ?_
          simpa using (@List.perm_middle _ first (heldSlots before) (heldSlots after)).symm
        · exact List.Perm.trans List.perm_middle all
        · intro other mem dispatching none'
          rcases mem_replaced mem with rfl | apart
          · contradiction
          · exact unslotted other (mem_around h apart) dispatching none'

theorem slots_release {limiter : Limiter} {before after : List Handler} {h : Handler}
    (slots : SlotsHeld limiter (before ++ h :: after)) (dispatching : h.phase = .dispatching) :
    ∃ next, limiter.release h.slotUid = .ok next ∧
      ∀ h', h'.phase ≠ .dispatching → SlotsHeld next (before ++ h' :: after) := by
  cases limiter with
  | semaphore maxConcurrency value => exact ⟨_,rfl,fun _ _ => trivial⟩
  | slotPool pool =>
    obtain ⟨checked,all,unslotted⟩ := slots
    have here : h ∈ before ++ h :: after := List.mem_append_right _ List.mem_cons_self
    have others : ∀ h', h'.phase ≠ .dispatching → ∀ g ∈ before ++ h' :: after, g.phase = .dispatching → g.slotUid = none →
        pool.slotUids = [] := by
      intro h' past g mem running none'
      rcases mem_replaced mem with rfl | apart
      · exact absurd running past
      · exact unslotted g (mem_around h apart) running none'
    rw [heldSlots_split, dispatching, if_pos rfl] at checked
    cases slot : h.slotUid with
    | none =>
      have empty := unslotted h here dispatching slot
      refine ⟨.slotPool pool,by simp [Limiter.release, SlotPool.release, empty, Except.map],?_⟩
      intro h' past
      refine ⟨?_,all,others h' past⟩
      rw [heldSlots_split, if_neg past]
      rw [slot] at checked
      exact checked
    | some slotUid =>
      rw [slot] at checked
      have middle : pool.checkedOut.Perm (slotUid :: (heldSlots before ++ heldSlots after)) :=
        checked.trans List.perm_middle
      have out : slotUid ∈ pool.checkedOut := middle.mem_iff.mpr List.mem_cons_self
      refine ⟨_,by simp only [Limiter.release, SlotPool.release, if_pos out, Except.map]; rfl,?_⟩
      intro h' past
      refine ⟨?_,?_,others h' past⟩
      · rw [heldSlots_split, if_neg past]
        simpa using middle.erase slotUid
      · have back := (List.perm_cons_erase out).symm.append_left pool.available
        refine List.Perm.trans ?_ (back.trans all)
        simp

end slots

section rows
variable {s next : WorkerPool}

variable {change : EventRow → EventRow} {deliveryId : PyString} {i : Nat} {h : Handler}

/-- A handler's row is there for good. -/
theorem keyed_update {db : Database} {handlers : List Handler}
    (keyed : ∀ h ∈ handlers, ∃ row, rowOf db h.deliveryId = some row ∧ row.key = h.key) (deliveryId : PyString)
    (keeps : KeepsKey change) :
    ∀ h ∈ handlers, ∃ row, rowOf (updateRow db deliveryId change) h.deliveryId = some row ∧ row.key = h.key := by
  intro h mem
  obtain ⟨row,known,same⟩ := keyed h mem
  obtain ⟨current,now,kept⟩ := rowOf_kept deliveryId keeps known
  exact ⟨current,now,kept.trans same⟩

theorem settled_same {next : WorkerPool} (settled : Settled s deliveryId)
    (state : stateOf next.db deliveryId = stateOf s.db deliveryId) (asked : deliveryId ∈ next.asked → deliveryId ∈ s.asked) :
    Settled next deliveryId := by
  unfold Settled
  rw [state]
  exact ⟨settled.1,fun mem => settled.2 (asked mem)⟩

theorem settled_not {state : EventState} (settled : Settled s deliveryId) (at' : stateOf s.db deliveryId = some state) : state = .done ∨ state = .failed := by
  rcases settled.1 with done | failed
  · exact .inl (Option.some.inj (at'.symm.trans done))
  · exact .inr (Option.some.inj (at'.symm.trans failed))

/-- Hooks, the limiter and the in-flight keys say nothing about rows. -/
theorem rows_same (rows : RowsMarked s) (db : next.db = s.db) (handlers : next.handlers = s.handlers)
    (dispatcher : next.dispatcher = s.dispatcher ∨ ∀ row, next.dispatcher ≠ .claimed row)
    (retried : next.retried = s.retried) (asked : next.asked = s.asked) (cancelled : next.cancelled = s.cancelled) :
    RowsMarked next := by
  refine ⟨?_,?_,?_,?_,?_,?_,?_⟩
  · rw [db]
    exact rows.ids
  · rw [db, handlers]
    exact rows.keyed
  · rw [db, handlers, retried]
    intro row claimed
    rcases dispatcher with same | none'
    · exact rows.claimed row (same ▸ claimed)
    · exact absurd claimed (none' row)
  · rw [db, handlers, retried]
    exact rows.fresh
  · rw [db, handlers, retried]
    exact rows.running
  · rw [handlers, retried]
    intro h mem kept past
    exact settled_same (rows.marked h mem kept past) (by rw [db]) (by rw [asked]; exact id)
  · rw [handlers, retried, asked, cancelled]
    exact rows.heard

/-- A handler that moves on within the same side of its mark. -/
theorem rows_moved (h' : Handler) (rows : RowsMarked s) (at' : s.handlers[i]? = some h) (id : h'.deliveryId = h.deliveryId)
    (key : h'.key = h.key) (active : h'.active ↔ h.active) (db : next.db = s.db)
    (handlers : next.handlers = s.handlers.set i h') (dispatcher : next.dispatcher = s.dispatcher)
    (retried : next.retried = s.retried) (asked : next.asked = s.asked) (cancelled : next.cancelled = s.cancelled) : RowsMarked next := by
  have here : h ∈ s.handlers := List.mem_of_getElem? at'
  have old : ∀ g ∈ next.handlers, ∃ f ∈ s.handlers, f.deliveryId = g.deliveryId ∧ f.key = g.key ∧ (f.active ↔ g.active) := by
    intro g mem
    rw [handlers] at mem
    rcases List.mem_or_eq_of_mem_set mem with before | rfl
    · exact ⟨g,before,rfl,rfl,Iff.rfl⟩
    · exact ⟨h,here,id.symm,key.symm,active.symm⟩
  have new : ∀ f ∈ s.handlers, ∃ g ∈ next.handlers, g.deliveryId = f.deliveryId ∧ (f.active ↔ g.active) := by
    intro f mem
    obtain ⟨before,after,split,set⟩ := set_split at'
    rw [split] at mem
    rw [handlers, set]
    rcases mem_replaced mem with rfl | apart
    · exact ⟨h',List.mem_append_right _ List.mem_cons_self,id,active.symm⟩
    · exact ⟨f,mem_around h' apart,rfl,Iff.rfl⟩
  refine ⟨?_,?_,?_,?_,?_,?_,?_⟩
  · rw [db]
    exact rows.ids
  · intro g mem
    obtain ⟨f,was,sameId,sameKey,-⟩ := old g mem
    rw [db, ← sameId, ← sameKey]
    exact rows.keyed f was
  · rw [db, dispatcher, retried]
    intro row claimed
    obtain ⟨current,known,kept,rest⟩ := rows.claimed row claimed
    refine ⟨current,known,kept,fun fresh => ⟨(rest fresh).1,?_⟩⟩
    intro g mem
    obtain ⟨f,was,sameId,-,-⟩ := old g mem
    rw [← sameId]
    exact (rest fresh).2 f was
  · rw [db, retried]
    intro deliveryId queued kept g mem
    obtain ⟨f,was,sameId,-,-⟩ := old g mem
    rw [← sameId]
    exact rows.fresh deliveryId queued kept f was
  · rw [db, retried]
    intro g mem kept busy
    obtain ⟨f,was,sameId,-,sameActive⟩ := old g mem
    rw [← sameId]
    exact rows.running f was (sameId ▸ kept) (sameActive.mpr busy)
  · rw [retried]
    intro g mem kept past
    obtain ⟨f,was,sameId,-,sameActive⟩ := old g mem
    rw [← sameId]
    exact settled_same (rows.marked f was (sameId ▸ kept) fun busy => past (sameActive.mp busy)) (by rw [db])
      (by rw [asked]; exact fun mem => mem)
  · rw [asked, retried, cancelled]
    intro deliveryId mem kept busy
    refine rows.heard deliveryId mem kept fun f was same => ?_
    obtain ⟨g,now,sameId,sameActive⟩ := new f was
    exact sameActive.mpr (busy g now (sameId.trans same))

/-- Changing the row of an event that no handler is bound to keep. -/
theorem rows_elsewhere (rows : RowsMarked s) (keeps : KeepsKey change) (db : next.db = updateRow s.db deliveryId change)
    (handlers : next.handlers = s.handlers) (retried : ∀ id ∈ s.retried, id ∈ next.retried)
    (free : deliveryId ∉ next.retried → ∀ h ∈ s.handlers, h.deliveryId ≠ deliveryId)
    (dispatcher : ∀ row, next.dispatcher = .claimed row → ∃ current, rowOf next.db row.deliveryId = some current ∧
      current.key = row.key ∧ (row.deliveryId ∉ next.retried → current.state = .running ∧ ∀ h ∈ s.handlers, h.deliveryId ≠ row.deliveryId))
    (asked : next.asked = s.asked) (cancelled : next.cancelled = s.cancelled) : RowsMarked next := by
  have elsewhere : ∀ id, id ∉ next.retried → (∃ h ∈ s.handlers, h.deliveryId = id) → stateOf next.db id = stateOf s.db id := by
    rintro id kept ⟨h,mem,rfl⟩
    rw [db]
    refine stateOf_update s.db keeps fun same => ?_
    exact free (same ▸ kept) h mem same
  have before : ∀ id, id ∉ next.retried → id ∉ s.retried := fun id kept mem => kept (retried id mem)
  refine ⟨?_,?_,?_,?_,?_,?_,?_⟩
  · rw [db, ids_update s.db deliveryId keeps]
    exact rows.ids
  · rw [db, handlers]
    exact keyed_update rows.keyed deliveryId keeps
  · rw [handlers]
    exact dispatcher
  · rw [handlers]
    intro id queued kept h mem same
    rw [elsewhere id kept ⟨h,mem,same⟩] at queued
    exact rows.fresh id queued (before id kept) h mem same
  · rw [handlers]
    intro h mem kept busy
    rw [elsewhere h.deliveryId kept ⟨h,mem,rfl⟩]
    exact rows.running h mem (before _ kept) busy
  · rw [handlers]
    intro h mem kept past
    refine settled_same (rows.marked h mem (before _ kept) past) (elsewhere h.deliveryId kept ⟨h,mem,rfl⟩) ?_
    rw [asked]
    exact id
  · rw [handlers, asked, cancelled]
    intro id mem kept busy
    exact rows.heard id mem (before id kept) busy

theorem rows_record (rows : RowsMarked s) (deliveryId : PyString) (issueKey : Option PyString) (now : Nat) (state : EventState)
    (lastError : Option PyString) : RowsMarked (step s (.record deliveryId issueKey now state lastError)) := by
  have known : ∀ {id row}, rowOf s.db id = some row →
      rowOf (recordEvent s.db deliveryId issueKey now state lastError) id = some row := by
    intro id row found
    rw [rowOf_record, if_neg (by simp [found]), found]
  have same : ∀ h ∈ s.handlers, stateOf (recordEvent s.db deliveryId issueKey now state lastError) h.deliveryId =
      stateOf s.db h.deliveryId := by
    intro h mem
    obtain ⟨row,found,-⟩ := rows.keyed h mem
    simp only [stateOf, known found, found]
  refine ⟨?_,?_,?_,?_,?_,?_,rows.heard⟩
  · exact ids_record rows.ids deliveryId issueKey now state lastError
  · intro h mem
    obtain ⟨row,found,key⟩ := rows.keyed h mem
    exact ⟨row,known found,key⟩
  · intro row claimed
    obtain ⟨current,found,rest⟩ := rows.claimed row claimed
    exact ⟨current,known found,rest⟩
  · intro id queued kept h mem here
    refine rows.fresh id ?_ kept h mem here
    rw [← here, ← same h mem, here]
    exact queued
  · intro h mem kept busy
    exact (same h mem).trans (rows.running h mem kept busy)
  · intro h mem kept past
    exact settled_same (rows.marked h mem kept past) (same h mem) id

theorem rows_claim (rows : RowsMarked s) : RowsMarked (step s .claim) := by
  rcases claim_cases s with same | ⟨row,idle,found,claim⟩
  · rw [same]
    exact rows
  · rw [claim]
    have queued := List.mem_filter.mp (oldest_mem found)
    have known := rowOf_mem rows.ids queued.1
    have was : stateOf s.db row.deliveryId = some .queued := by
      rw [stateOf, known]
      exact congrArg some (of_decide_eq_true queued.2)
    have unhandled := rows.fresh row.deliveryId was
    refine rows_elsewhere rows claim_keeps rfl rfl (fun _ mem => mem) unhandled ?_ rfl rfl
    intro claimed same
    cases same
    refine ⟨{ row with state := .running, attempts := row.attempts + 1 },?_,rfl,fun kept => ⟨rfl,unhandled kept⟩⟩
    dsimp only
    rw [rowOf_update s.db _ _ claim_keeps, if_pos rfl, known]
    rfl

theorem rows_launch (rows : RowsMarked s) : RowsMarked (step s .launch) := by
  rcases launch_cases s with same | ⟨row,claimed,⟨-,busy⟩ | ⟨-,free⟩⟩
  · rw [same]
    exact rows
  · obtain ⟨current,known,key,rest⟩ := rows.claimed row claimed
    rw [busy]
    refine rows_elsewhere rows (requeue_keeps [.running]) rfl rfl (fun _ mem => mem) (fun kept => (rest kept).2) ?_ rfl rfl
    intro other pausing
    contradiction
  · obtain ⟨current,known,key,rest⟩ := rows.claimed row claimed
    rw [free]
    have new : ∀ h ∈ s.handlers ++ [⟨row.deliveryId,row.key,none,.waiting,0⟩],
        h ∈ s.handlers ∨ h = ⟨row.deliveryId,row.key,none,.waiting,0⟩ := fun h mem => by
      simpa using mem
    have state (kept : row.deliveryId ∉ s.retried) : stateOf s.db row.deliveryId = some .running := by
      rw [stateOf, known]
      exact congrArg some (rest kept).1
    refine ⟨rows.ids,?_,?_,?_,?_,?_,?_⟩
    · intro h mem
      rcases new h mem with old | rfl
      · exact rows.keyed h old
      · exact ⟨current,known,key⟩
    · intro other idle
      contradiction
    · intro id queued kept h mem
      rcases new h mem with old | rfl
      · exact rows.fresh id queued kept h old
      · rintro rfl
        have running := state kept
        rw [running] at queued
        contradiction
    · intro h mem kept active
      rcases new h mem with old | rfl
      · exact rows.running h old kept active
      · exact state kept
    · intro h mem kept past
      rcases new h mem with old | rfl
      · exact rows.marked h old kept past
      · exact absurd (.inl rfl) past
    · intro id mem kept active
      exact rows.heard id mem kept fun h old => active h (List.mem_append_left _ old)

/-- A handler that is done with its work, its slot reaped. -/
theorem finish_reaped {outcome : Outcome} {reapFails : Bool} (counted : SlotsCounted s) (at' : s.handlers[i]? = some h)
    (dispatching : h.phase = .dispatching) (fine : StepFine s (.finish i outcome reapFails)) : ∃ limiter,
      SlotsHeld limiter (s.handlers.set i { h with phase := .releasing, slotReturns := h.slotReturns + 1 }) ∧
      s.finish i h outcome reapFails = { s with
        db := s.marked h.deliveryId outcome
        cancelled := discard h.deliveryId s.cancelled
        cancelHooks := discard h.deliveryId s.cancelHooks
        limiter
        handlers := s.handlers.set i { h with phase := .releasing, slotReturns := h.slotReturns + 1 } } := by
  obtain ⟨before,after,split,set⟩ := set_split at'
  have slots := counted.slots
  rw [split] at slots
  obtain ⟨limiter,released,kept⟩ := slots_release slots dispatching
  refine ⟨limiter,?_,?_⟩
  · rw [set]
    exact kept _ (by simp)
  · have reaped : (reapFails && h.slotUid.isSome) = false := by
      cases reapFails with
      | false => rfl
      | true =>
        rw [fine rfl h at']
        rfl
    unfold WorkerPool.finish
    dsimp only
    rw [released, reaped]
    rfl

/-- No other unfinished handler has the delivery of a handler at work. -/
theorem delivery_unique {before after : List Handler} (keys : KeysHeld s) (rows : RowsMarked s)
    (split : s.handlers = before ++ h :: after) (active : h.active) :
    ∀ g ∈ before ++ after, g.deliveryId = h.deliveryId → ¬ g.active := by
  intro g mem same busy
  have inside : g ∈ s.handlers := by
    rw [split]
    exact List.mem_append.mpr ((List.mem_append.mp mem).imp_right (List.mem_cons_of_mem h))
  obtain ⟨row,known,key⟩ := rows.keyed g inside
  obtain ⟨row',known',key'⟩ := rows.keyed h (split ▸ List.mem_append_right _ List.mem_cons_self)
  have sameKey : g.key = h.key := by
    rw [same, known'] at known
    cases known
    rw [← key, ← key']
  have exclusive := keys.exclusive
  rw [split, liveKeys_split, live_of_active active, if_pos rfl, List.singleton_append, List.perm_middle.nodup_iff,
    List.nodup_cons] at exclusive
  refine exclusive.1 (sameKey ▸ ?_)
  rcases List.mem_append.mp mem with early | late
  · exact List.mem_append_left _ (mem_liveKeys early (live_of_active busy))
  · exact List.mem_append_right _ (mem_liveKeys late (live_of_active busy))

/-- The handlers around one of them stay when it is replaced. -/
theorem stateOf_marked {row : EventRow} (known : rowOf s.db deliveryId = some row) (outcome : Outcome) :
    (stateOf (s.marked deliveryId outcome) deliveryId = some .done ∨
      stateOf (s.marked deliveryId outcome) deliveryId = some .failed) ∧
    (deliveryId ∈ s.cancelled → stateOf (s.marked deliveryId outcome) deliveryId = some .failed) := by
  unfold WorkerPool.marked
  by_cases cancelled : deliveryId ∈ s.cancelled
  · rw [if_pos cancelled]
    have failed := stateOf_mark known .failed (some cancelledByOperator)
    exact ⟨.inr failed,fun _ => failed⟩
  · rw [if_neg cancelled]
    cases outcome with
    | returned => exact ⟨.inl (stateOf_mark known .done none),fun mem => absurd mem cancelled⟩
    | raised error => exact ⟨.inr (stateOf_mark known .failed (some error)),fun mem => absurd mem cancelled⟩

/-- The row is marked as the handler leaves its work: until then it was running, so no earlier handler
    of the same delivery had a settled row to lose. -/
theorem rows_finish (h' : Handler) {outcome : Outcome} (keys : KeysHeld s) (rows : RowsMarked s)
    (at' : s.handlers[i]? = some h) (active : h.active) (id : h'.deliveryId = h.deliveryId) (key : h'.key = h.key)
    (past : ¬ h'.active) (db : next.db = s.marked h.deliveryId outcome) (handlers : next.handlers = s.handlers.set i h')
    (dispatcher : next.dispatcher = s.dispatcher) (retried : next.retried = s.retried) (asked : next.asked = s.asked)
    (cancelled : next.cancelled = discard h.deliveryId s.cancelled) : RowsMarked next := by
  obtain ⟨before,after,split,set⟩ := set_split at'
  have here : h ∈ s.handlers := List.mem_of_getElem? at'
  obtain ⟨state,error,update⟩ := marked_update s h.deliveryId outcome
  have keeps := mark_keeps state error
  rw [update, markEvent] at db
  have elsewhere : ∀ other, other ≠ h.deliveryId → stateOf next.db other = stateOf s.db other := fun other ne => by
    rw [db]
    exact stateOf_update s.db keeps ne
  obtain ⟨row,known,-⟩ := rows.keyed h here
  have settled := stateOf_marked (s := s) known outcome
  rw [update, markEvent, ← db] at settled
  have was : h.deliveryId ∉ s.retried → ∀ g ∈ s.handlers, g.deliveryId = h.deliveryId → g.active := by
    intro kept g mem same
    by_contra idle
    have running := rows.running h here kept active
    rw [← same] at running kept
    rcases settled_not (rows.marked g mem kept idle) running with impossible | impossible
    · contradiction
    · contradiction
  have others : h.deliveryId ∉ s.retried → ∀ g ∈ before ++ after, g.deliveryId ≠ h.deliveryId := by
    intro kept g mem same
    refine delivery_unique keys rows split active g mem same (was kept g ?_ same)
    rw [split]
    exact mem_around h mem
  have new : ∀ g ∈ next.handlers, g = h' ∨ g ∈ before ++ after ∧ g ∈ s.handlers := by
    intro g mem
    rw [handlers, set] at mem
    rw [split]
    exact (mem_replaced mem).imp_right fun apart => ⟨apart,mem_around h apart⟩
  refine ⟨?_,?_,?_,?_,?_,?_,?_⟩
  · rw [db, ids_update s.db h.deliveryId keeps]
    exact rows.ids
  · intro g mem
    rw [db]
    rcases new g mem with rfl | ⟨-,old⟩
    · rw [id, key]
      exact keyed_update rows.keyed h.deliveryId keeps h here
    · exact keyed_update rows.keyed h.deliveryId keeps g old
  · intro claimed at''
    rw [dispatcher] at at''
    obtain ⟨current,found,sameKey,rest⟩ := rows.claimed claimed at''
    rw [retried]
    by_cases kept : claimed.deliveryId ∈ s.retried
    · rw [db]
      obtain ⟨row',now,key'⟩ := rowOf_kept h.deliveryId keeps found
      exact ⟨row',now,key'.trans sameKey,fun fresh => absurd kept fresh⟩
    · have ne : claimed.deliveryId ≠ h.deliveryId := fun same => (rest kept).2 h here same.symm
      refine ⟨current,by rw [db, rowOf_update s.db _ _ keeps, if_neg ne, found],sameKey,fun fresh => ⟨(rest kept).1,?_⟩⟩
      intro g mem
      rcases new g mem with rfl | ⟨-,old⟩
      · exact fun same => ne (same.symm.trans id)
      · exact (rest kept).2 g old
  · rw [retried]
    intro other queued kept g mem same
    have ne : other ≠ h.deliveryId := by
      rintro rfl
      rcases settled.1 with done | failed
      · rw [done] at queued
        contradiction
      · rw [failed] at queued
        contradiction
    rw [elsewhere other ne] at queued
    rcases new g mem with rfl | ⟨-,old⟩
    · exact ne (same.symm.trans id)
    · exact rows.fresh other queued kept g old same
  · rw [retried]
    intro g mem kept busy
    rcases new g mem with rfl | ⟨apart,old⟩
    · exact absurd busy past
    · have ne : g.deliveryId ≠ h.deliveryId := fun same => others (same ▸ kept) g apart same
      rw [elsewhere g.deliveryId ne]
      exact rows.running g old kept busy
  · rw [retried]
    intro g mem kept idle
    rcases new g mem with rfl | ⟨apart,old⟩
    · rw [id] at kept ⊢
      refine ⟨settled.1,fun wanted => settled.2 ?_⟩
      rw [asked] at wanted
      exact rows.heard h.deliveryId wanted kept (was kept)
    · have ne : g.deliveryId ≠ h.deliveryId := fun same => others (same ▸ kept) g apart same
      refine settled_same (rows.marked g old kept idle) (elsewhere g.deliveryId ne) ?_
      rw [asked]
      exact fun mem => mem
  · rw [asked, retried, cancelled]
    intro other wanted kept busy
    have ne : other ≠ h.deliveryId := by
      rintro rfl
      refine past (busy h' ?_ id)
      rw [handlers, set]
      exact List.mem_append_right _ List.mem_cons_self
    refine List.mem_filter.mpr ⟨rows.heard other wanted kept fun g mem same => ?_,decide_eq_true ne⟩
    refine busy g ?_ same
    rw [handlers, set]
    rw [split] at mem
    rcases mem_replaced mem with rfl | apart
    · exact absurd same.symm ne
    · exact mem_around h' apart

/-- A request that comes after the mark finds the row failed already. -/
theorem rows_cancel (rows : RowsMarked s) (fine : StepFine s (.cancel deliveryId)) :
    RowsMarked (step s (.cancel deliveryId)) := by
  simp only [step, WorkerPool.cancel]
  refine ⟨rows.ids,rows.keyed,rows.claimed,rows.fresh,rows.running,?_,?_⟩
  · intro h mem kept idle
    have settled := rows.marked h mem kept idle
    by_cases mine : h.deliveryId = deliveryId
    · refine ⟨settled.1,fun wanted => ?_⟩
      by_cases ended : h.phase = .ended
      · have seen : (s.handlers.any fun h => h.deliveryId = deliveryId && h.phase = .ended) = true := by
          refine List.any_eq_true.mpr ⟨h,mem,?_⟩
          simp [mine, ended]
        dsimp only at wanted
        rw [if_pos seen] at wanted
        exact settled.2 wanted
      · have releasing : h.phase = .releasing := by
          cases phase : h.phase with
          | waiting => exact absurd (.inl phase) idle
          | dispatching => exact absurd (.inr phase) idle
          | releasing => rfl
          | ended => exact absurd phase ended
        refine settled.1.resolve_left ?_
        rw [mine]
        exact fine h mem mine releasing
    · refine settled_same settled rfl fun wanted => ?_
      dsimp only at wanted
      split at wanted
      · exact wanted
      · exact (List.mem_cons.mp wanted).resolve_left mine
  · intro other wanted kept busy
    by_cases mine : other = deliveryId
    · exact mine ▸ List.mem_cons_self
    · refine List.mem_cons_of_mem _ (rows.heard other ?_ kept busy)
      dsimp only at wanted
      split at wanted
      · exact wanted
      · exact (List.mem_cons.mp wanted).resolve_left mine

theorem rows_retry (rows : RowsMarked s) (deliveryId : PyString) : RowsMarked (step s (.retry deliveryId)) := by
  have retried : ∀ {id}, id ∉ deliveryId :: s.retried → id ∉ s.retried ∧ id ≠ deliveryId := fun kept =>
    ⟨fun mem => kept (List.mem_cons_of_mem _ mem),fun same => kept (same ▸ List.mem_cons_self)⟩
  refine rows_elsewhere rows (requeue_keeps inactiveEventStates) rfl rfl (fun _ mem => List.mem_cons_of_mem _ mem) ?_ ?_
    rfl rfl
  · intro kept
    exact absurd List.mem_cons_self kept
  · intro row claimed
    obtain ⟨current,known,key,rest⟩ := rows.claimed row claimed
    obtain ⟨current',known',key'⟩ := rowOf_kept deliveryId (requeue_keeps inactiveEventStates) known
    refine ⟨current',known',key'.trans key,fun kept => ?_⟩
    have fresh := retried kept
    have same : current' = current := by
      rw [rowOf_update s.db _ _ (requeue_keeps inactiveEventStates), if_neg fresh.2, known] at known'
      exact (Option.some.inj known').symm
    rw [same]
    exact rest fresh.1

theorem rows_start (db : Database) (limiter : Limiter) (ids : (db.map EventRow.deliveryId).Nodup) (started : List PyString) :
    RowsMarked { WorkerPool.start db limiter with started } := by
  refine ⟨(ids_reset db).symm ▸ ids,?_,?_,?_,?_,?_,?_⟩
  · exact fun h mem => absurd mem List.not_mem_nil
  · intro row claimed
    contradiction
  · exact fun _ _ _ h mem => absurd mem List.not_mem_nil
  · exact fun h mem => absurd mem List.not_mem_nil
  · exact fun h mem => absurd mem List.not_mem_nil
  · exact fun id mem => absurd mem List.not_mem_nil

end rows

structure Inv (s : WorkerPool) : Prop where
  keys : KeysHeld s
  counted : SlotsCounted s
  rows : RowsMarked s

theorem counted_same {s next : WorkerPool} (counted : SlotsCounted s) (limiter : next.limiter = s.limiter)
    (handlers : next.handlers = s.handlers) : SlotsCounted next :=
  ⟨by rw [handlers]; exact counted.returns,by rw [limiter, handlers]; exact counted.slots⟩

theorem counted_moved {s next : WorkerPool} {i : Nat} (h' : Handler) (counted : SlotsCounted s)
    (mine : (h'.active → h'.slotReturns = 0) ∧ (¬ h'.active → h'.slotReturns = 1))
    (slots : SlotsHeld next.limiter (s.handlers.set i h')) (handlers : next.handlers = s.handlers.set i h') :
    SlotsCounted next := by
  refine ⟨?_,by rw [handlers]; exact slots⟩
  intro g mem
  rw [handlers] at mem
  rcases List.mem_or_eq_of_mem_set mem with old | rfl
  · exact counted.returns g old
  · exact mine

/-- A handler without a slot is not looked at. -/
theorem slots_idle {limiter : Limiter} {before after : List Handler} {h h' : Handler}
    (slots : SlotsHeld limiter (before ++ h :: after)) (idle : h.phase ≠ .dispatching) (idle' : h'.phase ≠ .dispatching) :
    SlotsHeld limiter (before ++ h' :: after) := by
  cases limiter with
  | semaphore maxConcurrency value => trivial
  | slotPool pool =>
    obtain ⟨checked,all,unslotted⟩ := slots
    refine ⟨?_,all,?_⟩
    · rw [heldSlots_split, if_neg idle] at checked
      rw [heldSlots_split, if_neg idle']
      exact checked
    · intro g mem dispatching none'
      rcases List.mem_append.mp mem with early | late
      · exact unslotted g (List.mem_append_left _ early) dispatching none'
      · rcases List.mem_cons.mp late with rfl | late
        · exact absurd dispatching idle'
        · exact unslotted g (List.mem_append_right _ (List.mem_cons_of_mem _ late)) dispatching none'

section steps
variable {s : WorkerPool}

theorem inv_claim (inv : Inv s) : Inv (step s .claim) := by
  refine ⟨?_,?_,rows_claim inv.rows⟩
  · rcases claim_cases s with same | ⟨row,-,-,claim⟩
    · rw [same]
      exact inv.keys
    · rw [claim]
      exact keys_same inv.keys rfl rfl
  · rcases claim_cases s with same | ⟨row,-,-,claim⟩
    · rw [same]
      exact inv.counted
    · rw [claim]
      exact counted_same inv.counted rfl rfl

theorem inv_launch (inv : Inv s) : Inv (step s .launch) := by
  refine ⟨?_,?_,rows_launch inv.rows⟩
  · rcases launch_cases s with same | ⟨row,-,⟨-,busy⟩ | ⟨free,launched⟩⟩
    · rw [same]
      exact inv.keys
    · rw [busy]
      exact keys_same inv.keys rfl rfl
    · rw [launched]
      exact keys_launched inv.keys free rfl rfl rfl rfl
  · rcases launch_cases s with same | ⟨row,-,⟨-,busy⟩ | ⟨free,launched⟩⟩
    · rw [same]
      exact inv.counted
    · rw [busy]
      exact counted_same inv.counted rfl rfl
    · rw [launched]
      constructor
      · intro h mem
        rcases List.mem_append.mp mem with old | new
        · exact inv.counted.returns h old
        · rw [List.mem_singleton.mp new]
          exact ⟨fun _ => rfl,fun past => absurd (.inl rfl) past⟩
      · have slots := inv.counted.slots
        cases limiter : s.limiter with
        | semaphore maxConcurrency value => trivial
        | slotPool pool =>
          rw [limiter] at slots
          obtain ⟨checked,all,unslotted⟩ := slots
          refine ⟨?_,all,?_⟩
          · rw [heldSlots_split]
            simpa [heldSlots] using checked
          · intro g mem dispatching none'
            rcases List.mem_append.mp mem with old | new
            · exact unslotted g old dispatching none'
            · rw [List.mem_singleton.mp new] at dispatching
              contradiction

theorem inv_acquire (inv : Inv s) (i : Nat) : Inv (step s (.acquire i)) := by
  rcases acquire_cases s i with same | ⟨h,slotUid,limiter,at',waiting,got,acquired⟩
  · rw [same]
    exact inv
  · obtain ⟨before,after,split,set⟩ := set_split at'
    have active : h.active := .inl waiting
    rw [acquired]
    refine ⟨?_,?_,?_⟩
    · exact keys_moved { h with phase := .dispatching, slotUid } inv.keys at' rfl (live_of_active active) rfl rfl rfl
    · have slots := inv.counted.slots
      rw [split] at slots
      have unreturned := (inv.counted.returns h (List.mem_of_getElem? at')).1 active
      have now : Handler.active { h with phase := .dispatching, slotUid } := .inr rfl
      refine counted_moved { h with phase := .dispatching, slotUid } inv.counted ?_ ?_ rfl
      · exact ⟨fun _ => unreturned,fun past => absurd now past⟩
      · rw [set]
        exact slots_acquire slots waiting got
    · exact rows_moved { h with phase := .dispatching, slotUid } inv.rows at' rfl rfl ⟨fun _ => active,fun _ => .inr rfl⟩ rfl rfl rfl rfl rfl rfl

theorem inv_finish (inv : Inv s) {i : Nat} {outcome : Outcome} {reapFails : Bool}
    (fine : StepFine s (.finish i outcome reapFails)) : Inv (step s (.finish i outcome reapFails)) := by
  rcases finish_cases s i outcome reapFails with same | ⟨h,at',dispatching,finished⟩
  · rw [same]
    exact inv
  · obtain ⟨limiter,slots,effect⟩ := finish_reaped inv.counted at' dispatching fine
    have active : h.active := .inr dispatching
    have past : ¬ Handler.active { h with phase := .releasing, slotReturns := h.slotReturns + 1 } := by
      rintro (impossible | impossible)
      · contradiction
      · contradiction
    rw [finished, effect]
    refine ⟨?_,?_,?_⟩
    · exact keys_moved { h with phase := .releasing, slotReturns := h.slotReturns + 1 } inv.keys at' rfl (live_of_active active) rfl rfl rfl
    · have unreturned := (inv.counted.returns h (List.mem_of_getElem? at')).1 active
      refine counted_moved { h with phase := .releasing, slotReturns := h.slotReturns + 1 } inv.counted ?_ slots rfl
      exact ⟨fun busy => absurd busy past,fun _ => by rw [unreturned]⟩
    · exact rows_finish { h with phase := .releasing, slotReturns := h.slotReturns + 1 } inv.keys inv.rows at' active rfl rfl
        past rfl rfl rfl rfl rfl rfl

theorem inv_release (inv : Inv s) (i : Nat) : Inv (step s (.release i)) := by
  rcases release_cases s i with same | ⟨h,at',releasing,released⟩
  · rw [same]
    exact inv
  · obtain ⟨before,after,split,set⟩ := set_split at'
    have live : h.live = true := by
      rw [Handler.live, releasing]
      rfl
    have idle : ¬ h.active := by
      rintro (impossible | impossible)
      · rw [releasing] at impossible
        contradiction
      · rw [releasing] at impossible
        contradiction
    have past : ¬ Handler.active { h with phase := .ended } := by
      rintro (impossible | impossible)
      · contradiction
      · contradiction
    rw [released]
    refine ⟨keys_released { h with phase := .ended } inv.keys at' live rfl rfl rfl,?_,?_⟩
    · have returned := (inv.counted.returns h (List.mem_of_getElem? at')).2 idle
      refine counted_moved { h with phase := .ended } inv.counted ⟨fun busy => absurd busy past,fun _ => returned⟩ ?_ rfl
      have slots := inv.counted.slots
      rw [split] at slots
      rw [set]
      exact slots_idle slots (by rw [releasing]; exact Phase.noConfusion) Phase.noConfusion
    · exact rows_moved { h with phase := .ended } inv.rows at' rfl rfl
        ⟨fun busy => absurd busy past,fun busy => absurd busy idle⟩ rfl rfl rfl rfl
        rfl rfl

theorem inv_start (db : Database) (limiter : Limiter) (ids : (db.map EventRow.deliveryId).Nodup) (started : List PyString) :
    Inv { WorkerPool.start db limiter with started } := by
  refine ⟨⟨List.nodup_nil,fun key => Iff.rfl⟩,⟨fun h mem => absurd mem List.not_mem_nil,?_⟩,rows_start db limiter ids started⟩
  cases limiter with
  | semaphore maxConcurrency value => trivial
  | slotPool pool =>
    refine ⟨List.Perm.refl [],?_,fun h mem => absurd mem List.not_mem_nil⟩
    rw [SlotPool.new, List.append_nil]

theorem inv_step (inv : Inv s) (c : Step) (fine : StepFine s c) : Inv (step s c) := by
  cases c with
  | record deliveryId issueKey now state lastError =>
    exact ⟨keys_same inv.keys rfl rfl,counted_same inv.counted rfl rfl,rows_record inv.rows deliveryId issueKey now state lastError⟩
  | claim => exact inv_claim inv
  | launch => exact inv_launch inv
  | resume =>
    rcases resume_cases s with same | ⟨-,resumed⟩
    · rw [same]
      exact inv
    · rw [resumed]
      refine ⟨keys_same inv.keys rfl rfl,counted_same inv.counted rfl rfl,?_⟩
      exact rows_same inv.rows rfl rfl (.inr fun row => Dispatcher.noConfusion) rfl rfl rfl
  | acquire i => exact inv_acquire inv i
  | arm i =>
    obtain ⟨cancelHooks,armed⟩ := arm_cases s i
    rw [armed]
    exact ⟨keys_same inv.keys rfl rfl,counted_same inv.counted rfl rfl,rows_same inv.rows rfl rfl (.inl rfl) rfl rfl rfl⟩
  | disarm i =>
    obtain ⟨cancelHooks,disarmed⟩ := disarm_cases s i
    rw [disarmed]
    exact ⟨keys_same inv.keys rfl rfl,counted_same inv.counted rfl rfl,rows_same inv.rows rfl rfl (.inl rfl) rfl rfl rfl⟩
  | finish i outcome reapFails => exact inv_finish inv fine
  | release i => exact inv_release inv i
  | cancel deliveryId =>
    exact ⟨keys_same inv.keys rfl rfl,counted_same inv.counted rfl rfl,rows_cancel inv.rows fine⟩
  | retry deliveryId =>
    exact ⟨keys_same inv.keys rfl rfl,counted_same inv.counted rfl rfl,rows_retry inv.rows deliveryId⟩
  | restart => exact inv_start s.db s.limiter inv.rows.ids s.started

end steps

theorem safe_of_inv {s : WorkerPool} (inv : Inv s) : Safe s := by
  have past : ∀ h : Handler, h.phase = .ended → ¬ h.active := by
    rintro h ended (waiting | dispatching)
    · rw [ended] at waiting
      contradiction
    · rw [ended] at dispatching
      contradiction
  refine ⟨inv.keys.exclusive,fun key mem => (inv.keys.held key).mp mem,?_,?_,?_⟩
  · exact fun h mem ended => (inv.counted.returns h mem).2 (past h ended)
  · intro pool at'
    have slots := inv.counted.slots
    rw [at'] at slots
    exact (slots.1.symm.append_left pool.available).trans slots.2.1
  · exact fun h mem ended kept => inv.rows.marked h mem kept (past h ended)

def oneEvent : List Step :=
  [.record "d".toList (some "r#1".toList) 0 .queued none, .claim, .launch, .acquire 0, .arm 0, .cancel "d".toList]

end Dispatch
