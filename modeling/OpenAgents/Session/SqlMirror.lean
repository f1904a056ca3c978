import OpenAgents.Session.SqlStorage

/- When the rows of the SQL session storage end as its mirror.  Two calls on one path race
   unless one writer makes both; a call that finds its paths free keeps the chains disjoint. -/
namespace SqlStorage
open DisjointChains Function

/- The rows are on their way to the mirror. -/
def Behind (st : State) : Prop := Covers effects st.rows st.mirror st.waiting

theorem create_behind (rows : Rows) : Behind (create rows) := by
  refine Covers.of_settled ?_
  intro chain
  cases chain with
  | inl index => rfl
  | inr index => rfl

variable {st : State} {own : Option Nat} {chain : Chain} {path src dst : Path}

theorem waiting_subset_others (other : ∀ index ∈ own, chain ≠ .inl index) {statement : Statement}
    (waits : statement ∈ st.waiting chain) : statement ∈ st.others own := by
  unfold State.others
  rw [List.mem_append, List.mem_flatMap, List.mem_flatMap]
  cases chain with
  | inl index =>
    left
    cases found : st.writers[index]? with
    | none => simp [State.waiting, found] at waits
    | some writer =>
      have queued : statement ∈ writer.pendingChain := by simpa [State.waiting, found] using waits
      refine ⟨writer,?_,queued⟩
      cases own with
      | none => exact List.mem_of_getElem? found
      | some mine =>
        have differs : index ≠ mine := fun same => other mine rfl (congrArg Sum.inl same)
        exact List.mem_eraseIdx_iff_getElem?.mpr ⟨index,differs,found⟩
  | inr index =>
    right
    cases found : st.calls[index]? with
    | none => simp [State.waiting, found] at waits
    | some call =>
      have queued : statement ∈ call.statements := by simpa [State.waiting, found] using waits
      exact ⟨call,List.mem_of_getElem? found,queued⟩

theorem free_untouched (free : st.free own path = true) (other : ∀ index ∈ own, chain ≠ .inl index) : path ∉ effects.touched (st.waiting chain) := by
  rintro ⟨statement,waits,touches⟩
  have apart := List.all_eq_true.mp free statement (waiting_subset_others other waits)
  have member : statement.paths.contains path = true := List.contains_iff_mem.mpr touches
  rw [member] at apart
  cases apart

theorem Behind.issue (behind : Behind st) (tracked : Bool) {statements : List Statement}
    (free : ∀ path ∈ effects.touched statements, st.free none path = true) :
    Covers effects st.rows (effects.runAll statements st.mirror) (st.issue tracked statements).waiting := by
  rw [waiting_issue]
  refine Covers.extend behind ?_
  intro chain _ path touches
  exact free_untouched (free path touches) (by simp)

/-- A statement on one path that is free extends a chain that the others leave alone. -/
theorem one_apart (free : st.free own path = true) {statement : Statement} (only : statement.paths = [path])
    (other : ∀ index ∈ own, chain ≠ .inl index) :
    ∀ touched ∈ effects.touched [statement], touched ∉ effects.touched (st.waiting chain) := by
  intro touched member
  obtain ⟨found,among,touches⟩ := mem_touched.mp member
  obtain rfl := List.mem_singleton.mp among
  rw [only, List.mem_singleton] at touches
  rw [touches]
  exact free_untouched free other

theorem Behind.issue_one (behind : Behind st) (tracked : Bool) {statement : Statement} (only : statement.paths = [path])
    (free : st.free none path = true) :
    Covers effects st.rows (statement.execute st.mirror) (st.issue tracked [statement]).waiting := by
  rw [waiting_issue]
  have apart : ∀ chain, chain ≠ .inr st.calls.length →
      ∀ touched ∈ effects.touched [statement], touched ∉ effects.touched (st.waiting chain) :=
    fun chain _ => one_apart free only (by simp)
  exact Covers.extend behind apart

/-- Deleting what stands at the destination and moving the row does what the mirror does. -/
theorem rename_executes {mirror : Rows} {entry : String} (found : mirror src = some entry) (differs : src ≠ dst) :
    effects.runAll ((if (mirror dst).isSome then [Statement.delete dst] else []) ++ [Statement.rename dst src]) mirror =
      update (update mirror src none) dst (some entry) := by
  rw [runAll_append]
  split_ifs with held
  · have kept : update mirror dst none src = some entry := by rw [update_of_ne differs, found]
    have moved : Statement.execute (update mirror dst none) (.rename dst src) =
        update (update (update mirror dst none) src none) dst (some entry) := by
      simp only [Statement.execute, kept]
    funext path
    calc effects.runAll [Statement.rename dst src] (effects.runAll [Statement.delete dst] mirror) path
        = Statement.execute (update mirror dst none) (.rename dst src) path := rfl
      _ = update (update (update mirror dst none) src none) dst (some entry) path := by rw [moved]
      _ = update (update mirror src none) dst (some entry) path := by
          simp only [update_apply]
          split_ifs <;> rfl
  · calc effects.runAll [Statement.rename dst src] (effects.runAll [] mirror)
        = Statement.execute mirror (.rename dst src) := rfl
      _ = update (update mirror src none) dst (some entry) := by simp only [Statement.execute, found]

theorem Behind.rename (behind : Behind st) (clean : Clean st (.rename src dst) = true) : Behind (st.rename src dst) := by
  unfold State.rename
  cases found : st.mirror src with
  | none => exact behind
  | some entry =>
    simp only [Clean, found, Option.isNone_some, Bool.false_or, Bool.and_eq_true, bne_iff_ne] at clean
    obtain ⟨⟨differs,freeSrc⟩,freeDst⟩ := clean
    have free : ∀ path ∈ effects.touched
        ((if (st.mirror dst).isSome then [Statement.delete dst] else []) ++ [Statement.rename dst src]),
        st.free none path = true := by
      intro path touches
      have either : path = dst ∨ path = src := by
        obtain ⟨statement,among,mine⟩ := mem_touched.mp touches
        rcases List.mem_append.mp among with deletes | renames
        · split_ifs at deletes
          · obtain rfl := List.mem_singleton.mp deletes
            exact .inl (List.mem_singleton.mp mine)
          · cases deletes
        · obtain rfl := List.mem_singleton.mp renames
          simpa [Statement.paths] using mine
      rcases either with rfl | rfl
      · exact freeDst
      · exact freeSrc
    have issued := behind.issue false free
    rw [rename_executes found differs] at issued
    exact issued

theorem Behind.openWriter (behind : Behind st) {flags : Flags} (clean : Clean st (.openWriter path flags) = true) : Behind (st.openWriter path flags) := by
  cases flags with
  | a =>
    have same : (st.openWriter path .a).waiting = st.waiting := by
      unfold State.openWriter
      rw [waiting_push, List.append_nil, update_eq_self]
    unfold Behind
    rw [same]
    exact behind
  | w =>
    have opened : (st.openWriter path .w).waiting = update st.waiting (.inl st.writers.length)
        (st.waiting (.inl st.writers.length) ++ [.upsertReplace path ""]) :=
      waiting_push (st.mirrorTruncate path) path false [.upsertReplace path ""]
    unfold Behind
    rw [opened]
    have apart : ∀ chain, chain ≠ .inl st.writers.length →
        ∀ touched ∈ effects.touched [.upsertReplace path ""], touched ∉ effects.touched (st.waiting chain) :=
      fun chain _ => one_apart clean rfl (by simp)
    exact Covers.extend behind apart

theorem Behind.writeLine {st next : State} (behind : Behind st) {index : Nat} {line : String}
    (clean : Clean st (.writeLine index line) = true) (stepped : st.writeLine index line = some next) :
    Behind next := by
  unfold State.writeLine at stepped
  cases found : st.writers[index]? with
  | none => simp [found] at stepped
  | some writer =>
    simp only [found] at stepped
    split_ifs at stepped with closed
    · cases stepped
      exact behind
    · cases stepped
      simp only [Clean, found, Bool.or_eq_true] at clean
      have free := clean.resolve_left closed
      have chained : st.waiting (.inl index) = writer.pendingChain := by simp [State.waiting, found]
      have waits := waiting_set_writer (st.mirrorAppend writer.path line) found
        { writer with pendingChain := writer.pendingChain ++ [.upsertAppend writer.path line] }
      unfold Behind
      rw [waits, ← chained]
      have apart : ∀ chain, chain ≠ .inl index →
          ∀ touched ∈ effects.touched [.upsertAppend writer.path line], touched ∉ effects.touched (st.waiting chain) :=
        fun chain other => one_apart free rfl (by simpa using other)
      exact Covers.extend behind apart

theorem Behind.close {st next : State} (behind : Behind st) {index : Nat} (stepped : st.close index = some next) :
    Behind next := by
  unfold State.close at stepped
  cases found : st.writers[index]? with
  | none => simp [found] at stepped
  | some writer =>
    simp only [found, Option.some.injEq] at stepped
    subst stepped
    have chained : st.waiting (.inl index) = writer.pendingChain := by simp [State.waiting, found]
    have waits := waiting_set_writer st found { writer with closed := true }
    unfold Behind
    rw [waits, ← chained, update_eq_self]
    exact behind

theorem execute_some {st next : State} {statement : Statement} (executed : st.execute statement = some next) :
    next = { st with rows := statement.execute st.rows } := by
  unfold State.execute at executed
  split_ifs at executed
  exact (Option.some.inj executed).symm

theorem Behind.writerDone {st next : State} (behind : Behind st) {index : Nat}
    (stepped : st.writerDone index = some next) : Behind next := by
  unfold State.writerDone at stepped
  cases found : st.writers[index]? with
  | none => simp [found] at stepped
  | some writer =>
    cases queued : writer.pendingChain with
    | nil => simp [found, queued] at stepped
    | cons statement rest =>
      simp only [found, queued] at stepped
      have chained : st.waiting (.inl index) = statement :: rest := by simp [State.waiting, found, queued]
      have waits := waiting_set_writer st found { writer with pendingChain := rest }
      rw [execute_some stepped]
      have completed := Covers.complete behind chained
      rw [← waits] at completed
      exact completed

theorem Behind.callDone {st next : State} (behind : Behind st) {index : Nat}
    (stepped : st.callDone index = some next) : Behind next := by
  unfold State.callDone at stepped
  cases found : st.calls[index]? with
  | none => simp [found] at stepped
  | some call =>
    cases queued : call.statements with
    | nil => simp [found, queued] at stepped
    | cons statement rest =>
      simp only [found, queued] at stepped
      have chained : st.waiting (.inr index) = statement :: rest := by simp [State.waiting, found, queued]
      have waits := waiting_set_call st found { call with statements := rest }
      rw [execute_some stepped]
      have completed := Covers.complete behind chained
      rw [← waits] at completed
      exact completed

theorem step_behind {st next : State} {event : Event} (behind : Behind st) (clean : Clean st event = true)
    (stepped : step st event = some next) : Behind next := by
  cases event with
  | writeTextSync path content =>
    cases stepped
    have only : (Statement.upsertReplace path content).paths = [path] := rfl
    exact behind.issue_one true only clean
  | writeText path content =>
    cases stepped
    have only : (Statement.upsertReplace path content).paths = [path] := rfl
    exact behind.issue_one false only clean
  | rename src dst =>
    cases stepped
    exact behind.rename clean
  | unlink path =>
    cases stepped
    have only : (Statement.delete path).paths = [path] := rfl
    exact behind.issue_one false only clean
  | openWriter path flags =>
    cases stepped
    exact behind.openWriter clean
  | writeLine index line => exact behind.writeLine clean stepped
  | close index => exact behind.close stepped
  | writerDone index => exact behind.writerDone stepped
  | callDone index => exact behind.callDone stepped

theorem run_behind {events : List Event} : ∀ {st last : State}, Behind st → CleanRun st events →
    run st events = some last → Behind last := by
  induction events with
  | nil =>
    intro st last behind _ ran
    cases ran
    exact behind
  | cons event rest ih =>
    intro st last behind clean ran
    obtain ⟨next,stepped,later⟩ := Option.bind_eq_some_iff.mp ran
    exact ih (step_behind behind clean.1 stepped) (clean.2 next stepped) later

theorem drained_settled (drained : st.drained = true) (awaited : st.awaited = true) : ∀ chain, st.waiting chain = [] := by
  simp only [State.drained, State.awaited, Bool.and_eq_true, List.all_eq_true, Bool.or_eq_true,
    Bool.not_eq_true', List.isEmpty_iff] at drained awaited
  intro chain
  cases chain with
  | inl index =>
    cases found : st.writers[index]? with
    | none => simp [State.waiting, found]
    | some writer =>
      have empty := drained.1 writer (List.mem_of_getElem? found)
      simp [State.waiting, found, empty]
  | inr index =>
    cases found : st.calls[index]? with
    | none => simp [State.waiting, found]
    | some call =>
      have member := List.mem_of_getElem? found
      have empty : call.statements = [] := by
        cases tracked : call.tracked with
        | false => exact (awaited call member).resolve_left (by simp [tracked])
        | true => exact (drained.2 call member).resolve_left (by simp [tracked])
      simp [State.waiting, found, empty]

/- A file is written beside an open writer's, and then moved over it. -/
def atomicRewrite : List Event :=
  [.openWriter "s" .w, .writeLine 0 "one", .writeTextSync "s.tmp" "two", .callDone 0, .writerDone 0,
    .writerDone 0, .close 0, .rename "s.tmp" "s", .callDone 1, .callDone 1]

/- The second of two writes is acknowledged first; and a deletion is not waited for. -/
def overtaken : List Event :=
  [.writeTextSync "s" "old", .writeTextSync "s" "new", .callDone 1, .callDone 0]

def deletedLate : List Event := [.writeTextSync "s" "old", .callDone 0, .unlink "s"]

end SqlStorage
