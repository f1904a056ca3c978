import OpenAgents.Agent.AppendOnlyContext
import Mathlib.Data.List.Induction
import Mathlib.Data.List.Infix

/- Runs of the append-only context: when the log shows the messages last synced,
   and when it keeps what a provider has already cached. -/
namespace AppendOnlyContext
open JsText JsJson AppendOnlyContextManager

/- What a provider writes of a tool result besides its content. -/
def resultFields (m : MessageObject) : List Json :=
  [orNull m (js "toolCallId"), orNull m (js "toolName"), orNull m (js "isError")]

def served (m : MessageObject) : List Json :=
  [orNull m (js "role"), orNull m (js "content")] ++ resultFields m

inductive ContextOp (AgentTool : Type) where
  | syncMessages (messages : List MessageObject)
  | resetSyncCursor
  | invalidateForModelChange
  | reset (context : AgentContext AgentTool) (options : BuildOptions)

section Runs
variable {AgentTool : Type} (normalizeTools : List AgentTool → Bool → List Tool)

def ContextOp.apply (mgr : AppendOnlyContextManager) : ContextOp AgentTool → AppendOnlyContextManager
  | .syncMessages messages => mgr.syncMessages messages
  | .resetSyncCursor => mgr.resetSyncCursor
  | .invalidateForModelChange => mgr.invalidateForModelChange
  | .reset context options => mgr.reset normalizeTools context options

def runOps (ops : List (ContextOp AgentTool)) : AppendOnlyContextManager :=
  ops.foldl (ContextOp.apply normalizeTools) .new

/-- What the last operation left synced: its messages, or nothing after a reset. -/
def lastSynced (ops : List (ContextOp AgentTool)) : List MessageObject :=
  match ops.getLast? with
  | some (.syncMessages messages) => messages
  | _ => []

def ContextOp.synced? : ContextOp AgentTool → Option (List MessageObject)
  | .syncMessages messages => some messages
  | _ => none

/-- The log as one sync leaves it. -/
structure Mirrors (before after : AppendOnlyContextManager) (synced messages : List MessageObject) :
    Prop where
  served : after.log.toMessages.map served = messages.map served
  stable : synced <+: messages → before.log.toMessages <+: after.log.toMessages

def SyncsMirror (ops : List (ContextOp AgentTool)) : Prop :=
  ∀ early messages late, ops = early ++ .syncMessages messages :: late →
    Mirrors (runOps normalizeTools early) (runOps normalizeTools (early ++ [.syncMessages messages]))
      (lastSynced early) messages

/-- Where the synced positions agree in the digested fields, they agree in the
    fields of a tool result too. -/
def CleanSync (synced messages : List MessageObject) : Prop :=
  (messages.take synced.length).map payload = synced.map payload →
    (messages.take synced.length).map resultFields = synced.map resultFields

instance (synced messages : List MessageObject) : Decidable (CleanSync synced messages) :=
  inferInstanceAs (Decidable (_ → _))

def SyncsClean (ops : List (ContextOp AgentTool)) : Prop :=
  ∀ early messages late, ops = early ++ .syncMessages messages :: late →
    CleanSync (lastSynced early) messages

/- A list whose digest the run may take. -/
def Digested (ops : List (ContextOp AgentTool)) (xs : List MessageObject) : Prop :=
  ∃ messages, .syncMessages messages ∈ ops ∧ xs <+: messages

/-- No two lists of one length that the run digests share a digest, unless their payloads agree. -/
def CollisionFree (ops : List (ContextOp AgentTool)) : Prop :=
  ∀ xs ys, Digested ops xs → Digested ops ys → xs.length = ys.length →
    computeDigest xs = computeDigest ys → xs.map payload = ys.map payload

end Runs

variable {m n : MessageObject} {xs ys synced : List MessageObject} {mgr : AppendOnlyContextManager}

/- Fields under the digest -/

theorem payload_covers (same : payload m = payload n) :
    orNull m (js "role") = orNull n (js "role") ∧ orNull m (js "content") = orNull n (js "content") := by
  simp only [payload, Json.obj.injEq, List.cons.injEq, Prod.mk.injEq, true_and] at same
  exact ⟨same.1,same.2.1⟩

theorem served_of_fields (same : payload m = payload n) (result : resultFields m = resultFields n) : served m = served n := by
  obtain ⟨role,content⟩ := payload_covers same
  unfold served
  rw [role, content, result]

theorem resultFields_of_served (same : served m = served n) : resultFields m = resultFields n := by
  have dropped : (served m).drop 2 = (served n).drop 2 := by rw [same]
  exact dropped

theorem map_served (same : xs.map payload = ys.map payload) (result : xs.map resultFields = ys.map resultFields) : xs.map served = ys.map served := by
  induction xs generalizing ys with
  | nil =>
    cases ys with
    | nil => rfl
    | cons y ys => simp at same
  | cons x xs ih =>
    cases ys with
    | nil => simp at same
    | cons y ys =>
      simp only [List.map_cons, List.cons.injEq] at same result ⊢
      exact ⟨served_of_fields same.1 result.1,ih same.2 result.2⟩

theorem map_resultFields (same : xs.map served = ys.map served) : xs.map resultFields = ys.map resultFields := by
  induction xs generalizing ys with
  | nil =>
    cases ys with
    | nil => rfl
    | cons y ys => simp at same
  | cons x xs ih =>
    cases ys with
    | nil => simp at same
    | cons y ys =>
      simp only [List.map_cons, List.cons.injEq] at same ⊢
      exact ⟨resultFields_of_served same.1,ih same.2⟩

theorem computeDigest_congr (same : xs.map payload = ys.map payload) : computeDigest xs = computeDigest ys := by
  have payloads (zs : List MessageObject) : computeDigest zs =
      (zs.map payload).foldl (fun hash p => rollingHash hash (stringify p)) 0 := by
    simp [computeDigest, List.foldl_map]
  rw [payloads xs, payloads ys, same]

/- The lists a run digests are finitely many, so a run can be checked for collisions. -/

def digestedLists {AgentTool : Type} (ops : List (ContextOp AgentTool)) : List (List MessageObject) :=
  (ops.filterMap ContextOp.synced?).flatMap List.inits

theorem mem_digestedLists {AgentTool : Type} {ops : List (ContextOp AgentTool)} : xs ∈ digestedLists ops ↔ Digested ops xs := by
  unfold digestedLists Digested
  simp only [List.mem_flatMap, List.mem_filterMap, List.mem_inits]
  constructor
  · rintro ⟨messages,⟨op,mem,synced⟩,part⟩
    cases op with
    | syncMessages others =>
      cases synced
      exact ⟨messages,mem,part⟩
    | resetSyncCursor => cases synced
    | invalidateForModelChange => cases synced
    | reset context options => cases synced
  · intro digested
    obtain ⟨messages,mem,part⟩ := digested
    exact ⟨messages,⟨.syncMessages messages,mem,rfl⟩,part⟩

instance {AgentTool : Type} (ops : List (ContextOp AgentTool)) : Decidable (CollisionFree ops) :=
  decidable_of_iff
    (∀ xs ∈ digestedLists ops, ∀ ys ∈ digestedLists ops, xs.length = ys.length →
      computeDigest xs = computeDigest ys → xs.map payload = ys.map payload)
    ⟨fun all xs ys left right => all xs (mem_digestedLists.mpr left) ys (mem_digestedLists.mpr right),
      fun free xs left ys right => free xs ys (mem_digestedLists.mp left) (mem_digestedLists.mp right)⟩

/- One operation -/

/-- The manager's counters describe the messages last synced. -/
structure Tracks (mgr : AppendOnlyContextManager) (synced : List MessageObject) : Prop where
  count : mgr.lastSyncCount = synced.length
  digest : synced ≠ [] → mgr.syncedDigest = computeDigest synced
  log : mgr.log.toMessages.map payload = synced.map payload

theorem cleared_tracks (count : mgr.lastSyncCount = 0) (log : mgr.log.toMessages = []) : Tracks mgr [] where
  count := by simp [count]
  digest := by simp
  log := by simp [log]

/-- A sync keeps the log and adds the rest, or starts it over. -/
theorem syncMessages_log (tracks : Tracks mgr synced) (messages : List MessageObject)
    (distinct : computeDigest (messages.take synced.length) = computeDigest synced →
      synced.length ≤ messages.length →
      (messages.take synced.length).map payload = synced.map payload) :
    (mgr.syncMessages messages).log.toMessages =
      if (messages.take synced.length).map payload = synced.map payload then
        mgr.log.toMessages ++ messages.drop synced.length
      else messages := by
  by_cases empty : synced = []
  · subst empty
    have count : mgr.lastSyncCount = 0 := tracks.count
    simp [syncMessages, count, AppendOnlyLog.toMessages_appends]
  have count := tracks.count
  have positive : 0 < synced.length := List.length_pos_of_ne_nil empty
  have digest := tracks.digest empty
  by_cases long : synced.length ≤ messages.length
  · by_cases same : (messages.take synced.length).map payload = synced.map payload
    · have agree := computeDigest_congr same
      simp [syncMessages, count, digest, agree, same, Nat.not_lt.mpr long,
        AppendOnlyLog.toMessages_appends]
    · have differ : computeDigest (messages.take synced.length) ≠ computeDigest synced := by
        intro agree
        exact same (distinct agree long)
      rw [if_neg same]
      simp [syncMessages, count, digest, differ, long, positive, AppendOnlyLog.toMessages_appends]
  · have short : messages.length < synced.length := Nat.lt_of_not_le long
    have same : ¬ (messages.take synced.length).map payload = synced.map payload := by
      intro same
      have lengths := congrArg List.length same
      simp at lengths
      omega
    rw [if_neg same]
    simp [syncMessages, count, long, short, AppendOnlyLog.toMessages_appends]

theorem syncMessages_tracks (tracks : Tracks mgr synced) (messages : List MessageObject)
    (distinct : computeDigest (messages.take synced.length) = computeDigest synced →
      synced.length ≤ messages.length →
      (messages.take synced.length).map payload = synced.map payload) :
    Tracks (mgr.syncMessages messages) messages where
  count := rfl
  digest := fun _ => rfl
  log := by
    rw [syncMessages_log tracks messages distinct]
    split
    · rename_i same
      rw [List.map_append, tracks.log, ← same, ← List.map_append, List.take_append_drop]
    · rfl

/-- A kept log is extended, and a log that starts over was not extended by the list. -/
theorem syncMessages_stable (tracks : Tracks mgr synced) (messages : List MessageObject)
    (distinct : computeDigest (messages.take synced.length) = computeDigest synced →
      synced.length ≤ messages.length →
      (messages.take synced.length).map payload = synced.map payload) (extends_synced : synced <+: messages) :
    mgr.log.toMessages <+: (mgr.syncMessages messages).log.toMessages := by
  have same : messages.take synced.length = synced := (List.prefix_iff_eq_take.mp extends_synced).symm
  rw [syncMessages_log tracks messages distinct, same, if_pos rfl]
  exact List.prefix_append _ _

theorem syncMessages_served (tracks : Tracks mgr synced) (messages : List MessageObject)
    (distinct : computeDigest (messages.take synced.length) = computeDigest synced →
      synced.length ≤ messages.length →
      (messages.take synced.length).map payload = synced.map payload)
    (exact_log : mgr.log.toMessages.map served = synced.map served) :
    (mgr.syncMessages messages).log.toMessages.map served = messages.map served ↔
      CleanSync synced messages := by
  rw [syncMessages_log tracks messages distinct]
  by_cases same : (messages.take synced.length).map payload = synced.map payload
  · have split_messages : messages.map served =
        (messages.take synced.length).map served ++ (messages.drop synced.length).map served := by
      rw [← List.map_append, List.take_append_drop]
    rw [if_pos same, List.map_append, exact_log, split_messages, List.append_cancel_right_eq]
    constructor
    · intro agree _
      exact (map_resultFields agree).symm
    · intro clean
      exact (map_served same (clean same)).symm
  · rw [if_neg same]
    exact ⟨fun _ agree => absurd agree same,fun _ => rfl⟩

/- Runs -/

section Runs
variable {AgentTool : Type} (normalizeTools : List AgentTool → Bool → List Tool)

theorem runOps_snoc (ops : List (ContextOp AgentTool)) (op : ContextOp AgentTool) :
    runOps normalizeTools (ops ++ [op]) = op.apply normalizeTools (runOps normalizeTools ops) := by
  simp [runOps]

@[simp] theorem lastSynced_snoc_sync (ops : List (ContextOp AgentTool)) (messages : List MessageObject) :
    lastSynced (ops ++ [.syncMessages messages]) = messages := by
  simp [lastSynced]

variable {ops : List (ContextOp AgentTool)}

theorem lastSynced_digested (some_synced : lastSynced ops ≠ []) : Digested ops (lastSynced ops) := by
  unfold lastSynced at some_synced ⊢
  split at some_synced
  · rename_i messages last
    exact ⟨messages,List.mem_of_getLast? last,List.prefix_refl messages⟩
  · exact absurd rfl some_synced

theorem CollisionFree.of_prefix {ops early : List (ContextOp AgentTool)} (free : CollisionFree ops)
    (begins : early <+: ops) : CollisionFree early := by
  have wider (xs : List MessageObject) (digested : Digested early xs) : Digested ops xs := by
    obtain ⟨messages,mem,part⟩ := digested
    exact ⟨messages,begins.subset mem,part⟩
  intro xs ys left right
  exact free xs ys (wider xs left) (wider ys right)

theorem CollisionFree.distinct {messages : List MessageObject} (free : CollisionFree (ops ++ [.syncMessages messages])) :
    computeDigest (messages.take (lastSynced ops).length) = computeDigest (lastSynced ops) →
      (lastSynced ops).length ≤ messages.length →
      (messages.take (lastSynced ops).length).map payload = (lastSynced ops).map payload := by
  intro agree long
  by_cases empty : lastSynced ops = []
  · simp [empty]
  obtain ⟨synced,mem,part⟩ := lastSynced_digested empty
  have length : (messages.take (lastSynced ops).length).length = (lastSynced ops).length := by
    rw [List.length_take]
    omega
  exact free _ _ ⟨messages,by simp,List.take_prefix _ _⟩
    ⟨synced,List.mem_append_left _ mem,part⟩ length agree

theorem run_tracks (free : CollisionFree ops) : Tracks (runOps normalizeTools ops) (lastSynced ops) := by
  induction ops using List.reverseRecOn with
  | nil => exact cleared_tracks rfl rfl
  | append_singleton ops op ih =>
    have before := ih (free.of_prefix (List.prefix_append ops [op]))
    rw [runOps_snoc]
    cases op with
    | syncMessages messages =>
      rw [lastSynced_snoc_sync]
      exact syncMessages_tracks before messages free.distinct
    | resetSyncCursor => simpa [lastSynced] using cleared_tracks rfl rfl
    | invalidateForModelChange => simpa [lastSynced] using cleared_tracks rfl rfl
    | reset context options => simpa [lastSynced] using cleared_tracks rfl rfl

/-- The log shows the last list in every served field. -/
theorem run_served (free : CollisionFree ops) (clean : SyncsClean ops) :
    (runOps normalizeTools ops).log.toMessages.map served = (lastSynced ops).map served := by
  induction ops using List.reverseRecOn with
  | nil => rfl
  | append_singleton ops op ih =>
    have free_before := free.of_prefix (List.prefix_append ops [op])
    have before := ih free_before (by
      intro early messages late shape
      exact clean early messages (late ++ [op]) (by simp [shape]))
    rw [runOps_snoc]
    cases op with
    | syncMessages messages =>
      have tracks := run_tracks normalizeTools free_before
      rw [lastSynced_snoc_sync]
      exact (syncMessages_served tracks messages free.distinct before).mpr
        (clean ops messages [] rfl)
    | resetSyncCursor => simp [lastSynced, ContextOp.apply, resetSyncCursor]
    | invalidateForModelChange => simp [lastSynced, ContextOp.apply, invalidateForModelChange]
    | reset context options => simp [lastSynced, ContextOp.apply, AppendOnlyContextManager.reset]

theorem syncs_mirror_of_clean (free : CollisionFree ops) (clean : SyncsClean ops) : SyncsMirror normalizeTools ops := by
  intro early messages late shape
  have free_after : CollisionFree (early ++ [.syncMessages messages]) :=
    free.of_prefix ⟨late,by simp [shape]⟩
  have free_before := free_after.of_prefix (List.prefix_append early _)
  have tracks := run_tracks normalizeTools free_before
  have before := run_served normalizeTools free_before (by
    intro first others rest inner
    exact clean first others (rest ++ .syncMessages messages :: late) (by simp [shape, inner]))
  rw [runOps_snoc]
  constructor
  · exact (syncMessages_served tracks messages free_after.distinct before).mpr
      (clean early messages late shape)
  · exact syncMessages_stable tracks messages free_after.distinct

/-- Up to the first sync that is not clean the log is exact, and that sync spoils it. -/
theorem syncs_clean_of_mirror (free : CollisionFree ops) (mirror : SyncsMirror normalizeTools ops) : SyncsClean ops := by
  induction ops using List.reverseRecOn with
  | nil =>
    intro early messages late shape
    simp at shape
  | append_singleton ops op ih =>
    have free_before := free.of_prefix (List.prefix_append ops [op])
    have clean_before := ih free_before (by
      intro early messages late shape
      exact mirror early messages (late ++ [op]) (by simp [shape]))
    intro early messages late shape
    rcases List.eq_nil_or_concat late with rfl | ⟨rest,last,rfl⟩
    · obtain ⟨rfl,same⟩ := List.append_inj' shape rfl
      obtain rfl : op = .syncMessages messages := by simpa using same
      have tracks := run_tracks normalizeTools free_before
      have before := run_served normalizeTools free_before clean_before
      have served := (mirror ops messages [] rfl).served
      rw [runOps_snoc] at served
      exact (syncMessages_served tracks messages free.distinct before).mp served
    · have inner : ops ++ [op] = (early ++ .syncMessages messages :: rest) ++ [last] := by
        simpa using shape
      obtain ⟨shape_before,-⟩ := List.append_inj' inner rfl
      exact clean_before early messages rest shape_before

theorem syncs_mirror_iff_clean (ops : List (ContextOp AgentTool)) (free : CollisionFree ops) :
    SyncsMirror normalizeTools ops ↔ SyncsClean ops :=
  ⟨syncs_clean_of_mirror normalizeTools free,syncs_mirror_of_clean normalizeTools free⟩

end Runs

def textMessage (role content : JsString) : MessageObject :=
  [(js "role", .str role), (js "content", .str content)]

def toolResultMessage (toolCallId : JsString) (isError : Bool) : MessageObject :=
  [(js "role", .str (js "toolResult")), (js "toolCallId", .str toolCallId),
    (js "toolName", .str (js "run")), (js "content", .arr []), (js "isError", .bool isError)]

def noTools (_ : List Unit) (_ : Bool) : List Tool := []

/- A turn rewritten in place, then a longer list, then a reset. -/
def rewriteThenGrow : List (ContextOp Unit) :=
  [.syncMessages [textMessage (js "user") (js "a")], .syncMessages [textMessage (js "user") (js "b")],
    .syncMessages [textMessage (js "user") (js "b"), toolResultMessage (js "c") false],
    .resetSyncCursor]

theorem syncs_mirror_iff_clean_grown : SyncsMirror noTools rewriteThenGrow := by
  have free : CollisionFree rewriteThenGrow := by decide +kernel
  refine (syncs_mirror_iff_clean noTools rewriteThenGrow free).mpr ?_
  intro early messages late shape
  match early, shape with
  | [], shape =>
    cases shape
    decide
  | [_], shape =>
    cases shape
    decide
  | [_, _], shape =>
    cases shape
    decide
  | [_, _, _], shape => cases shape
  | _ :: _ :: _ :: _ :: early, shape => simp [rewriteThenGrow] at shape

/- The second list reports the same result as an error. -/
def errorFlagChanges : List (ContextOp Unit) :=
  [.syncMessages [toolResultMessage (js "c") false], .syncMessages [toolResultMessage (js "c") true]]

theorem changed_error_flag_is_stale :
    CollisionFree errorFlagChanges ∧ ¬ SyncsMirror noTools errorFlagChanges := by
  constructor
  · decide +kernel
  · intro mirror
    have served := (mirror [.syncMessages [toolResultMessage (js "c") false]]
      [toolResultMessage (js "c") true] [] rfl).served
    revert served
    decide +kernel

end AppendOnlyContext
