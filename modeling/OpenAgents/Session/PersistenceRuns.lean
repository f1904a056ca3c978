import OpenAgents.Session.PersistenceInvariant

/- Runs of appends, rewrites and moves: when the drained session file holds the
   whole session, and later appends land in it. -/
namespace Persistence
open JsText Session HeldFiles

def Drained (st : State) : Prop :=
  st.persistChain.idle ∧ (∀ chain ∈ st.abandoned, chain.idle) ∧ st.move = none

instance (st : State) : Decidable (Drained st) := inferInstanceAs (Decidable (_ ∧ _ ∧ _))

/- By design nothing is written yet: no assistant message, or a rewrite left to the next append. -/
def Postponed (st : State) : Prop := st.deferred = true ∨ st.needsFullRewriteOnNextPersist = true

instance (st : State) : Decidable (Postponed st) := inferInstanceAs (Decidable (_ ∨ _))

section Storage
variable (prepareEntryForPersistence : FileEntry → FileEntry)

/-- The file holds the session, and what is appended later lands in it as well; an unflushed
    session rewrites its file at the next append. -/
structure Durable (st : State) : Prop where
  file : st.disk.read st.sessionFile = some (st.lines prepareEntryForPersistence)
  landing : st.flushed = true → ∀ later : List SessionEntry,
    let after := later.foldl (State.appendEntry prepareEntryForPersistence) st
    after.disk.read st.sessionFile = some (after.lines prepareEntryForPersistence)

def CleanRun (st : State) : List Event → Prop
  | [] => True
  | event :: rest =>
      Clean st event ∧ ∀ after ∈ step prepareEntryForPersistence st event, CleanRun after rest

instance decidableCleanRun : (st : State) → (events : List Event) →
    Decidable (CleanRun prepareEntryForPersistence st events)
  | _, [] => isTrue trivial
  | st, event :: rest =>
      have : ∀ after, Decidable (CleanRun prepareEntryForPersistence after rest) :=
        fun after => decidableCleanRun after rest
      inferInstanceAs (Decidable (_ ∧ ∀ after ∈ step prepareEntryForPersistence st event, _))

/- Runs -/

theorem run_inv {events : List Event} : ∀ {st last : State}, Inv prepareEntryForPersistence st →
    CleanRun prepareEntryForPersistence st events → run prepareEntryForPersistence st events = some last →
    Inv prepareEntryForPersistence last := by
  induction events with
  | nil =>
    intro st last inv _ ran
    cases ran
    exact inv
  | cons event rest ih =>
    intro st last inv clean ran
    rw [run, List.foldlM_cons] at ran
    cases stepped : step prepareEntryForPersistence st event with
    | none => simp [stepped] at ran
    | some next =>
      rw [stepped] at ran
      exact ih (step_inv prepareEntryForPersistence inv clean.1 stepped) (clean.2 next stepped) ran

/- Drained sessions -/

theorem drained_file {st : State} (inv : Inv prepareEntryForPersistence st) (drained : Drained st)
    (now : ¬Postponed st) : st.disk.read st.sessionFile = some (st.lines prepareEntryForPersistence) := by
  have resolved : st.persistChain = .resolved := drained.1
  rcases inv.covered with (inside | ⟨m,moving,-⟩) | carried | ⟨-,deferred | full⟩
  · rw [resolved] at inside
    cases inside
  · rw [drained.2.2] at moving
    cases moving
  · rw [State.carried, resolved] at carried
    exact carried
  · exact absurd (.inl deferred.1) now
  · exact absurd (.inr full) now

/-- Nothing is under way, and what is appended is written at once. -/
structure Settled (st : State) : Prop where
  inv : Inv prepareEntryForPersistence st
  drained : Drained st
  now : ¬Postponed st
  flushed : st.flushed = true

theorem deferred_pushed {st : State} {entry : SessionEntry} (now : st.deferred = false) :
    (st.pushed entry).deferred = false := by
  unfold State.deferred State.hasAssistant State.pushed at *
  simp only [Bool.and_eq_false_iff, Bool.not_eq_false'] at now ⊢
  rcases now with ensured | answered
  · exact .inl ensured
  · right
    rw [List.any_append, answered]
    rfl

theorem Settled.append {st : State} (settled : Settled prepareEntryForPersistence st) (entry : SessionEntry) :
    Settled prepareEntryForPersistence (st.appendEntry prepareEntryForPersistence entry) ∧
      (st.appendEntry prepareEntryForPersistence entry).sessionFile = st.sessionFile := by
  obtain ⟨inv,drained,now,flushed⟩ := settled
  have resolved : st.persistChain = .resolved := drained.1
  simp only [Postponed, not_or, Bool.not_eq_true] at now
  have none_running : ∀ r, r ∉ st.running := by
    intro r running
    rw [inv.running_alone, resolved] at running
    cases running
  have clean : Clean st (.append entry) :=
    ⟨fun _ r running => absurd running (none_running r),fun _ r running => absurd running (none_running r)⟩
  have appended := inv.append prepareEntryForPersistence clean
  have waits : ¬(st.pushed entry).deferred = true := by
    rw [deferred_pushed now.1]
    exact Bool.false_ne_true
  -- No close is under way, so there is a writer to append with.
  obtain ⟨after,w,ensured⟩ : ∃ after w, st.ensurePersistWriter = some (after, w) := by
    unfold State.ensurePersistWriter
    cases cached : st.persistWriter with
    | none => exact ⟨_,_,rfl⟩
    | some v =>
      cases accepting : v.accepting with
      | true =>
        by_cases path : v.path = st.sessionFile
        · exact ⟨st,v,by simp [path, accepting]⟩
        · exact ⟨_,_,if_neg path⟩
      | false =>
        obtain ⟨r,running,-⟩ := inv.closing v cached accepting
        rw [resolved] at running
        cases running
  obtain ⟨same,-⟩ := ensurePersistWriter_frame ensured
  have written : st.appendEntry prepareEntryForPersistence entry =
      { after.pushed entry with
        disk := after.disk.append w.held (prepareEntryForPersistence (.entry entry)) } := by
    have unfolded : st.appendEntry prepareEntryForPersistence entry =
        (st.pushed entry).persist prepareEntryForPersistence entry := rfl
    have current : ¬((st.pushed entry).needsFullRewriteOnNextPersist || !(st.pushed entry).flushed) = true := by
      simp [State.pushed, now.2, flushed]
    rw [unfolded, State.persist, if_neg waits, if_neg current, ensurePersistWriter_pushed, ensured]
    rfl
  rw [written] at appended ⊢
  rw [same] at appended ⊢
  refine ⟨⟨appended,drained,?_,flushed⟩,rfl⟩
  rintro (deferred | full)
  · exact waits deferred
  · rw [show st.needsFullRewriteOnNextPersist = true from full] at now
    cases now.2

theorem Settled.landing {st : State} (settled : Settled prepareEntryForPersistence st)
    (later : List SessionEntry) :
    let after := later.foldl (State.appendEntry prepareEntryForPersistence) st
    after.disk.read st.sessionFile = some (after.lines prepareEntryForPersistence) := by
  induction later generalizing st with
  | nil => exact drained_file prepareEntryForPersistence settled.inv settled.drained settled.now
  | cons entry rest ih =>
    obtain ⟨appended,same⟩ := settled.append prepareEntryForPersistence entry
    rw [← same]
    exact ih appended

theorem clean_run_durable {st last : State} {events : List Event}
    (start : Start prepareEntryForPersistence st) (clean : CleanRun prepareEntryForPersistence st events)
    (ran : run prepareEntryForPersistence st events = some last) (drained : Drained last)
    (now : ¬Postponed last) : Durable prepareEntryForPersistence last := by
  have inv := run_inv prepareEntryForPersistence (start_inv prepareEntryForPersistence start) clean ran
  constructor
  · exact drained_file prepareEntryForPersistence inv drained now
  · intro flushed later
    exact Settled.landing prepareEntryForPersistence ⟨inv,drained,now,flushed⟩ later

end Storage

/- A session of one answer, read from its file -/

def answer : SessionEntry :=
  ⟨js "a",none,0,.message (.assistant ⟨[],js "api",js "provider",js "model",.stop,0⟩ none)⟩

def storedDisk (lines : List FileEntry) : Disk JsString FileEntry :=
  Disk.link (Disk.create ⟨fun _ => none,fun _ => [],0,by simp⟩ lines) (js "/old/s") 0

def storedSession : State :=
  let header : SessionHeader := ⟨currentSessionVersion,js "s",none,none,0,js "/old",none⟩
  { cwd := js "/old"
    header := header
    entries := [answer]
    sessionFile := js "/old/s"
    ensuredOnDisk := false
    flushed := true
    needsFullRewriteOnNextPersist := false
    persistWriter := none
    disk := storedDisk [.session header, .entry answer]
    persistChain := .resolved
    abandoned := []
    move := none }

theorem storedSession_start : Start id storedSession :=
  ⟨rfl,rfl,rfl,rfl,.inr ⟨by decide,.inl (by decide)⟩⟩

/- An append while the writer is being closed, and a move. -/
def closingThenMoved : List Event :=
  [.append (userEntry (js "b") (some (js "a")) (js "x")), .setSessionName (js "name") (js "user"), .chainStep,
    .append (userEntry (js "c") (some (js "b")) (js "y"))] ++ List.replicate 12 .chainStep ++
  [.append (userEntry (js "d") (some (js "c")) (js "z")), .moveTo (js "/new") (js "/new/s"),
    .chainStep, .chainStep, .moveStep, .moveStep, .moveStep] ++ List.replicate 6 .chainStep

theorem clean_run_durable_closingThenMoved :
    ∃ last, run id storedSession closingThenMoved = some last ∧ last.sessionFile = js "/new/s" ∧
      last.entries.length = 4 ∧ Durable id last := by
  have ends : (run id storedSession closingThenMoved).isSome = true := by decide +kernel
  obtain ⟨last,ran⟩ := Option.isSome_iff_exists.mp ends
  have reached : ∀ st ∈ run id storedSession closingThenMoved,
      st.sessionFile = js "/new/s" ∧ st.entries.length = 4 ∧ Drained st ∧ ¬Postponed st := by
    decide +kernel
  obtain ⟨file,four,drained,now⟩ := reached last ran
  have clean : CleanRun id storedSession closingThenMoved := by decide +kernel
  exact ⟨last,ran,file,four,clean_run_durable id storedSession_start clean ran drained now⟩

/- Four steps into a rewrite the rename is due; the append opens the file it replaces. -/
def appendBeforeRename : List Event :=
  [.rewriteEntries] ++ List.replicate 4 .chainStep ++
  [.append (userEntry (js "b") (some (js "a")) (js "x"))] ++ List.replicate 2 .chainStep ++
  [.append (userEntry (js "c") (some (js "b")) (js "y"))]

theorem append_before_rename_lost :
    Start id storedSession ∧ ∃ last, run id storedSession appendBeforeRename = some last ∧ Drained last ∧
      ¬Postponed last ∧ last.entries.length = 3 ∧
      last.disk.read last.sessionFile = some (storedSession.lines id) ∧ ¬Durable id last := by
  refine ⟨storedSession_start,?_⟩
  have ends : (run id storedSession appendBeforeRename).isSome = true := by decide +kernel
  obtain ⟨last,ran⟩ := Option.isSome_iff_exists.mp ends
  have reached : ∀ st ∈ run id storedSession appendBeforeRename,
      Drained st ∧ ¬Postponed st ∧ st.entries.length = 3 ∧
        st.disk.read st.sessionFile = some (storedSession.lines id) ∧
        storedSession.lines id ≠ st.lines id := by
    decide +kernel
  obtain ⟨drained,now,three,stale,differs⟩ := reached last ran
  refine ⟨last,ran,drained,now,three,stale,?_⟩
  intro durable
  exact differs (Option.some.inj (stale.symm.trans durable.file))

end Persistence
