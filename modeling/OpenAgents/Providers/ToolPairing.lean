import OpenAgents.Providers.TransformMessages
import Mathlib.Data.List.Perm.Basic

/- Tool-call pairing. The second pass keeps a closed history followed by at most one
   open window, whose answered and awaited calls are the calls of its turn. -/
namespace Providers
open JsText JsJson Conversation OrderedMap

/-- Each assistant turn is followed by one result for each of its calls, and no result
    stands elsewhere. -/
inductive Paired : List Message → Prop where
  | nil : Paired []
  | other (msg : Message) (rest : List Message) (plain : msg.isUserOrDeveloper = true)
      (paired : Paired rest) : Paired (msg :: rest)
  | turn (msg : AssistantMessage) (results : List ToolResultMessage) (rest : List Message)
      (answers : (results.map ToolResultMessage.toolCallId).Perm (msg.toolCalls.map ToolCall.id))
      (paired : Paired rest) : Paired (.assistant msg :: (results.map .toolResult ++ rest))

theorem Paired.append {xs ys : List Message} (first : Paired xs) (second : Paired ys) :
    Paired (xs ++ ys) := by
  induction first with
  | nil => exact second
  | other msg rest plain _ ih => exact .other msg _ plain ih
  | turn msg results rest answers _ ih =>
    rw [List.cons_append, List.append_assoc]
    exact .turn msg results _ answers ih

variable {xs transformed early : List Message} {msg : Message} {results : List ToolResultMessage} {id : JsString}
  {st : SecondPass} {call : ToolCall} {seen : List JsString}

theorem Paired.snoc (paired : Paired xs) (plain : msg.isUserOrDeveloper = true) : Paired (xs ++ [msg]) :=
  paired.append (.other msg [] plain .nil)

theorem Paired.window {msg : AssistantMessage} (paired : Paired xs)
    (answers : (results.map ToolResultMessage.toolCallId).Perm (msg.toolCalls.map ToolCall.id)) :
    Paired (xs ++ .assistant msg :: results.map .toolResult) := by
  have turn := Paired.turn msg results [] answers .nil
  rw [List.append_nil] at turn
  exact paired.append turn

/- The index of real results -/

theorem index_step (results : List ToolResultMessage) (byId : OMap JsString ToolResultMessage)
    (known : ∀ entry ∈ byId, entry.1 = entry.2.toolCallId) :
    let folded := results.foldl
      (fun byId result => if has byId result.toolCallId then byId else put byId result.toolCallId result) byId
    (∀ entry ∈ folded, entry.1 = entry.2.toolCallId ∧ (entry ∈ byId ∨ entry.2 ∈ results)) ∧
      ∀ id, id ∈ folded.map Prod.fst ↔
        id ∈ byId.map Prod.fst ∨ id ∈ results.map ToolResultMessage.toolCallId := by
  induction results generalizing byId with
  | nil => exact ⟨fun entry mem => ⟨known entry mem,.inl mem⟩,by simp⟩
  | cons result results ih =>
    rw [List.foldl_cons]
    by_cases old : has byId result.toolCallId = true
    · rw [if_pos old]
      obtain ⟨entries,keys⟩ := ih byId known
      refine ⟨fun entry mem => ?_,fun id => ?_⟩
      · obtain ⟨own,source⟩ := entries entry mem
        exact ⟨own,source.imp_right (List.mem_cons_of_mem result)⟩
      · rw [keys, List.map_cons, List.mem_cons]
        have present := (has_iff byId _).mp old
        constructor
        · rintro (early | late)
          · exact .inl early
          · exact .inr (.inr late)
        · rintro (early | rfl | late)
          · exact .inl early
          · exact .inl present
          · exact .inr late
    · rw [if_neg old]
      have fresh : result.toolCallId ∉ byId.map Prod.fst := fun mem => old ((has_iff byId _).mpr mem)
      rw [put_new result fresh]
      have grown : ∀ entry ∈ byId ++ [(result.toolCallId, result)], entry.1 = entry.2.toolCallId := by
        intro entry mem
        rcases List.mem_append.mp mem with early | last
        · exact known entry early
        · obtain rfl : entry = (result.toolCallId, result) := by simpa using last
          rfl
      obtain ⟨entries,keys⟩ := ih _ grown
      refine ⟨fun entry mem => ?_,fun id => ?_⟩
      · obtain ⟨own,source⟩ := entries entry mem
        refine ⟨own,?_⟩
        rcases source with early | late
        · rcases List.mem_append.mp early with first | last
          · exact .inl first
          · obtain rfl : entry = (result.toolCallId, result) := by simpa using last
            exact .inr List.mem_cons_self
        · exact .inr (List.mem_cons_of_mem result late)
      · rw [keys]
        simp [or_assoc]

def realResults (transformed : List Message) : List ToolResultMessage :=
  transformed.filterMap Message.toolResult?

theorem index_some {real : ToolResultMessage} (found : get? (indexHistory transformed).realToolResultsById id = some real) :
    real ∈ realResults transformed ∧ real.toolCallId = id := by
  obtain ⟨entries,_⟩ := index_step (realResults transformed) [] (by simp)
  obtain ⟨own,source⟩ := entries (id, real) (get?_some_mem found)
  exact ⟨source.resolve_left List.not_mem_nil,own.symm⟩

theorem index_none (missing : get? (indexHistory transformed).realToolResultsById id = none) :
    id ∉ (realResults transformed).map ToolResultMessage.toolCallId := by
  obtain ⟨_,keys⟩ := index_step (realResults transformed) [] (by simp)
  intro mem
  exact get?_none_iff.mp missing ((keys id).mpr (.inr mem))

/- Flushing -/

/- A result the pass may emit: a real one, or one for an id that has no real result. -/
def Genuine (transformed : List Message) (result : ToolResultMessage) : Prop :=
  result ∈ realResults transformed ∨
    result.toolCallId ∉ (realResults transformed).map ToolResultMessage.toolCallId

theorem emitResult_known {history : HistoryIndex} {text : JsString} {status : ToolCallStatus} {timestamp : Int}
    (known : has st.toolCallStatus call.id = true) : st.emitResult history text status timestamp call = st := by
  rw [SecondPass.emitResult, if_pos known]

theorem emitResult_new (transformed : List Message) (text : JsString) (status : ToolCallStatus) (timestamp : Int)
    (fresh : ¬has st.toolCallStatus call.id = true) :
    ∃ result mark, result.toolCallId = call.id ∧ Genuine transformed result ∧
      st.emitResult (indexHistory transformed) text status timestamp call =
        { st with
          result := st.result ++ [.toolResult result]
          toolCallStatus := put st.toolCallStatus call.id mark } := by
  rw [SecondPass.emitResult, if_neg fresh]
  cases found : get? (indexHistory transformed).realToolResultsById call.id with
  | some real =>
    obtain ⟨mem,own⟩ := index_some found
    exact ⟨real,.resolved,own,.inl mem,rfl⟩
  | none =>
    exact ⟨syntheticResult call text timestamp,status,rfl,.inr (index_none found),rfl⟩

def unanswered (st : SecondPass) (calls : List ToolCall) : List ToolCall :=
  calls.filter fun call => !has st.toolCallStatus call.id

/-- Emitting for a list of calls answers exactly the unanswered ones, in order. -/
theorem emit_all (transformed : List Message) (text : JsString) (status : ToolCallStatus)
    (timestamp : Int) (calls : List ToolCall) (st : SecondPass)
    (distinct : (calls.map ToolCall.id).Nodup) :
    ∃ (results : List ToolResultMessage) (marks : OMap JsString ToolCallStatus),
      results.map ToolResultMessage.toolCallId = (unanswered st calls).map ToolCall.id ∧
      (∀ result ∈ results, Genuine transformed result) ∧
      (∀ id, has marks id = true ↔ has st.toolCallStatus id = true ∨ id ∈ calls.map ToolCall.id) ∧
      calls.foldl (SecondPass.emitResult (indexHistory transformed) text status timestamp) st =
        { st with
          result := st.result ++ results.map .toolResult
          toolCallStatus := marks } := by
  induction calls generalizing st with
  | nil => exact ⟨[],st.toolCallStatus,rfl,by simp,by simp,by simp⟩
  | cons call calls ih =>
    obtain ⟨apart,rest⟩ := List.nodup_cons.mp distinct
    rw [List.foldl_cons]
    by_cases known : has st.toolCallStatus call.id = true
    · obtain ⟨results,marks,ids,genuine,keys,folded⟩ := ih st rest
      refine ⟨results,marks,?_,genuine,fun id => ?_,?_⟩
      · simp [unanswered, known, ids]
      · rw [keys, List.map_cons, List.mem_cons]
        constructor
        · rintro (old | later)
          · exact .inl old
          · exact .inr (.inr later)
        · rintro (old | rfl | later)
          · exact .inl old
          · exact .inl known
          · exact .inr later
      · rw [emitResult_known known, folded]
    · obtain ⟨first,mark,own,real,emitted⟩ := emitResult_new transformed text status timestamp known
      obtain ⟨results,marks,ids,genuine,keys,folded⟩ :=
        ih (st.emitResult (indexHistory transformed) text status timestamp call) rest
      have later : unanswered (st.emitResult (indexHistory transformed) text status timestamp call) calls =
          unanswered st calls := by
        apply List.filter_congr
        intro other mem
        have apart' : other.id ≠ call.id := fun same => apart (same ▸ List.mem_map_of_mem mem)
        have same : has (put st.toolCallStatus call.id mark) other.id = has st.toolCallStatus other.id := by
          rw [Bool.eq_iff_iff, has_put]
          simp [apart']
        rw [emitted]
        simp only [same]
      rw [emitted] at keys folded
      refine ⟨first :: results,marks,?_,?_,fun id => ?_,?_⟩
      · rw [later] at ids
        simp [unanswered, known, own, ids]
      · exact List.forall_mem_cons.mpr ⟨real,genuine⟩
      · rw [keys, has_put, List.map_cons, List.mem_cons, or_assoc, or_left_comm]
      · rw [emitted, folded]
        simp

/- The state between two messages -/

/- The ids of the open window that still need a result. -/
def awaited (st : SecondPass) : List JsString :=
  (unanswered st st.pendingToolCalls).map ToolCall.id ++ st.pendingAbortedToolCalls.map Prod.fst

/- A closed history, or one with an open window at its end. -/
def Windowed (st : SecondPass) : Prop :=
  (Paired st.result ∧ awaited st = []) ∨
    ∃ closed msg answered, st.result = closed ++ .assistant msg :: List.map .toolResult answered ∧
      Paired closed ∧
      (answered.map ToolResultMessage.toolCallId ++ awaited st).Perm (msg.toolCalls.map ToolCall.id)

theorem Windowed.paired {st : SecondPass} (windowed : Windowed st) (none_awaited : awaited st = []) :
    Paired st.result := by
  rcases windowed with ⟨paired,_⟩ | ⟨closed,msg,answered,shape,paired,answers⟩
  · exact paired
  · rw [none_awaited, List.append_nil] at answers
    rw [shape]
    exact paired.window answers

/-- Results for some of the awaited ids keep the shape. -/
theorem Windowed.answer {st st' : SecondPass} (windowed : Windowed st)
    (results : List ToolResultMessage) (grown : st'.result = st.result ++ results.map .toolResult)
    (answers : (results.map ToolResultMessage.toolCallId ++ awaited st').Perm (awaited st)) :
    Windowed st' := by
  rcases windowed with ⟨paired,none_awaited⟩ | ⟨closed,msg,answered,shape,paired,before⟩
  · rw [none_awaited] at answers
    obtain ⟨noResult,noneLeft⟩ := List.append_eq_nil_iff.mp answers.eq_nil
    obtain rfl : results = [] := List.map_eq_nil_iff.mp noResult
    refine .inl ⟨?_,noneLeft⟩
    rw [grown, List.map_nil, List.append_nil]
    exact paired
  · refine .inr ⟨closed,msg,answered ++ results,?_,paired,?_⟩
    · rw [grown, shape]
      simp
    · rw [List.map_append, List.append_assoc]
      exact (List.Perm.append_left _ answers).trans before

structure Inv (transformed : List Message) (seen : List JsString) (st : SecondPass) : Prop where
  marked : ∀ id, has st.toolCallStatus id = true → id ∈ seen
  pendingSeen : ∀ call ∈ st.pendingToolCalls, call.id ∈ seen
  pendingDistinct : (st.pendingToolCalls.map ToolCall.id).Nodup
  abortedOwn : ∀ entry ∈ st.pendingAbortedToolCalls,
    entry.1 = entry.2.id ∧ entry.1 ∈ seen ∧ ¬has st.toolCallStatus entry.1 = true
  abortedDistinct : (st.pendingAbortedToolCalls.map Prod.fst).Nodup
  exclusive : st.pendingToolCalls = [] ∨ st.pendingAbortedToolCalls = []
  armed : st.pendingAbortedTimestamp = none → st.pendingAbortedToolCalls = []
  genuine : ∀ result, .toolResult result ∈ st.result → Genuine transformed result
  windowed : Windowed st

theorem genuine_append (before : ∀ result, .toolResult result ∈ early → Genuine transformed result)
    (added : ∀ result ∈ results, Genuine transformed result) :
    ∀ result, .toolResult result ∈ early ++ results.map .toolResult → Genuine transformed result := by
  intro result mem
  rcases List.mem_append.mp mem with old | new
  · exact before result old
  · obtain ⟨source,inside,same⟩ := List.mem_map.mp new
    obtain rfl : source = result := Message.toolResult.inj same
    exact added source inside

theorem genuine_snoc (before : ∀ result, .toolResult result ∈ early → Genuine transformed result)
    (last : ∀ result, msg = .toolResult result → Genuine transformed result) :
    ∀ result, .toolResult result ∈ early ++ [msg] → Genuine transformed result := by
  intro result mem
  rcases List.mem_append.mp mem with old | new
  · exact before result old
  · exact last result (by simpa using (List.mem_singleton.mp new).symm)

theorem flushPending_inv (inv : Inv transformed seen st) (timestamp : Int) :
    Inv transformed seen (st.flushPendingToolCalls (indexHistory transformed) timestamp) ∧
      (st.flushPendingToolCalls (indexHistory transformed) timestamp).pendingToolCalls = [] ∧
      st.result <+: (st.flushPendingToolCalls (indexHistory transformed) timestamp).result := by
  obtain ⟨results,marks,ids,genuine,keys,folded⟩ := emit_all transformed
    (js "No result provided") .resolved timestamp st.pendingToolCalls st inv.pendingDistinct
  rw [SecondPass.flushPendingToolCalls, folded]
  refine ⟨?_,rfl,List.prefix_append _ _⟩
  constructor
  · intro id mark
    rcases (keys id).mp mark with old | new
    · exact inv.marked id old
    · obtain ⟨call,mem,rfl⟩ := List.mem_map.mp new
      exact inv.pendingSeen call mem
  · intro call mem
    cases mem
  · exact List.nodup_nil
  · intro entry mem
    obtain ⟨own,known,unmarked⟩ := inv.abortedOwn entry mem
    refine ⟨own,known,fun mark => ?_⟩
    rcases inv.exclusive with noPending | noAborted
    · rw [noPending] at keys
      exact unmarked (((keys entry.1).mp mark).resolve_right List.not_mem_nil)
    · rw [noAborted] at mem
      cases mem
  · exact inv.abortedDistinct
  · exact .inl rfl
  · exact inv.armed
  · exact genuine_append inv.genuine genuine
  · refine inv.windowed.answer results rfl ?_
    rw [ids]
    exact List.Perm.refl _

theorem unanswered_aborted (inv : Inv transformed seen st) :
    (unanswered st (values st.pendingAbortedToolCalls)).map ToolCall.id =
      st.pendingAbortedToolCalls.map Prod.fst := by
  have all : unanswered st (values st.pendingAbortedToolCalls) = values st.pendingAbortedToolCalls := by
    rw [unanswered, List.filter_eq_self]
    intro call mem
    obtain ⟨entry,inside,rfl⟩ := List.mem_map.mp mem
    obtain ⟨own,_,unmarked⟩ := inv.abortedOwn entry inside
    rw [← own]
    simpa using unmarked
  rw [all, values, List.map_map]
  exact List.map_congr_left fun entry inside => (inv.abortedOwn entry inside).1.symm

/-- After both flushes the history is closed and nothing is pending. -/
structure Idle (transformed : List Message) (seen : List JsString) (st : SecondPass) : Prop where
  inv : Inv transformed seen st
  pending : st.pendingToolCalls = []
  aborted : st.pendingAbortedToolCalls = []
  disarmed : st.pendingAbortedTimestamp = none

theorem Idle.paired (idle : Idle transformed seen st) : Paired st.result :=
  idle.inv.windowed.paired (by simp [awaited, idle.pending, idle.aborted, unanswered])

theorem flushAborted_idle (inv : Inv transformed seen st) (noPending : st.pendingToolCalls = []) :
    Idle transformed seen (st.flushPendingAbortedToolCalls (indexHistory transformed)) ∧
      st.result <+: (st.flushPendingAbortedToolCalls (indexHistory transformed)).result := by
  cases armed : st.pendingAbortedTimestamp with
  | none =>
    rw [SecondPass.flushPendingAbortedToolCalls, armed]
    exact ⟨⟨inv,noPending,inv.armed armed,armed⟩,List.prefix_refl _⟩
  | some timestamp =>
    have distinct : ((values st.pendingAbortedToolCalls).map ToolCall.id).Nodup := by
      have same : (values st.pendingAbortedToolCalls).map ToolCall.id =
          st.pendingAbortedToolCalls.map Prod.fst := by
        rw [values, List.map_map]
        exact List.map_congr_left fun entry inside => (inv.abortedOwn entry inside).1.symm
      rw [same]
      exact inv.abortedDistinct
    obtain ⟨results,marks,ids,genuine,keys,folded⟩ := emit_all transformed (js "aborted")
      .aborted timestamp (values st.pendingAbortedToolCalls) st distinct
    rw [unanswered_aborted inv] at ids
    have closed : Paired (st.result ++ results.map .toolResult) := by
      have answered : Windowed { st with
          result := st.result ++ results.map .toolResult, pendingAbortedToolCalls := [] } := by
        refine inv.windowed.answer results rfl ?_
        simp [awaited, noPending, unanswered, ids]
      exact answered.paired (by simp [awaited, noPending, unanswered])
    simp only [SecondPass.flushPendingAbortedToolCalls, armed, folded]
    refine ⟨⟨?_,noPending,rfl,rfl⟩,?_⟩
    · constructor
      · intro id mark
        rcases (keys id).mp mark with old | new
        · exact inv.marked id old
        · obtain ⟨call,mem,rfl⟩ := List.mem_map.mp new
          obtain ⟨entry,inside,rfl⟩ := List.mem_map.mp mem
          obtain ⟨own,known,_⟩ := inv.abortedOwn entry inside
          exact own ▸ known
      · exact inv.pendingSeen
      · exact inv.pendingDistinct
      · intro entry mem
        cases mem
      · exact List.nodup_nil
      · exact .inr rfl
      · exact fun _ => rfl
      · exact genuine_snoc (genuine_append inv.genuine genuine) fun result same => nomatch same
      · exact .inl ⟨closed.snoc rfl,by simp [awaited, noPending, unanswered]⟩
    · rw [List.append_assoc]
      exact List.prefix_append _ _

theorem flushAll_idle (inv : Inv transformed seen st) (timestamp : Int) :
    Idle transformed seen (st.flushAll (indexHistory transformed) timestamp) ∧
      st.result <+: (st.flushAll (indexHistory transformed) timestamp).result := by
  obtain ⟨flushed,noPending,grown⟩ := flushPending_inv inv timestamp
  obtain ⟨idle,grown'⟩ := flushAborted_idle flushed noPending
  exact ⟨idle,grown.trans grown'⟩

theorem Inv.mono {seen seen' : List JsString} (inv : Inv transformed seen st) (more : seen ⊆ seen') : Inv transformed seen' st where
  marked id mark := more (inv.marked id mark)
  pendingSeen call mem := more (inv.pendingSeen call mem)
  pendingDistinct := inv.pendingDistinct
  abortedOwn entry mem := (inv.abortedOwn entry mem).imp_right fun known => ⟨more known.1,known.2⟩
  abortedDistinct := inv.abortedDistinct
  exclusive := inv.exclusive
  armed := inv.armed
  genuine := inv.genuine
  windowed := inv.windowed

/- One message -/

theorem perm_without {k : JsString} {keys : List JsString} (distinct : keys.Nodup) (mem : k ∈ keys) :
    (k :: keys.filter fun key => key ≠ k).Perm keys := by
  have erased : (keys.filter fun key => key ≠ k) = keys.erase k := by
    rw [List.Nodup.erase_eq_filter distinct]
    apply List.filter_congr
    intro key _
    by_cases same : key = k <;> simp [same]
  rw [erased]
  exact (List.perm_cons_erase mem).symm

theorem answer_aborted (inv : Inv transformed seen st) {msg : ToolResultMessage} (real : msg ∈ realResults transformed)
    (open_window : has st.pendingAbortedToolCalls msg.toolCallId = true) :
    Inv transformed seen { st.push (.toolResult msg) with
      pendingAbortedToolCalls := remove st.pendingAbortedToolCalls msg.toolCallId
      toolCallStatus := put st.toolCallStatus msg.toolCallId .resolved } := by
  have key := (has_iff _ _).mp open_window
  have noPending : st.pendingToolCalls = [] := by
    rcases inv.exclusive with empty | empty
    · exact empty
    · rw [empty] at key
      cases key
  have removed : (remove st.pendingAbortedToolCalls msg.toolCallId).map Prod.fst =
      (st.pendingAbortedToolCalls.map Prod.fst).filter fun key => key ≠ msg.toolCallId := by
    rw [remove, List.filter_map]
    rfl
  constructor
  · intro id mark
    rcases (has_put _ _ _ _).mp mark with rfl | old
    · obtain ⟨entry,inside,here⟩ := List.mem_map.mp key
      exact here ▸ (inv.abortedOwn entry inside).2.1
    · exact inv.marked id old
  · exact inv.pendingSeen
  · exact inv.pendingDistinct
  · intro entry mem
    obtain ⟨inside,other⟩ := List.mem_filter.mp mem
    obtain ⟨own,known,unmarked⟩ := inv.abortedOwn entry inside
    refine ⟨own,known,fun mark => ?_⟩
    rcases (has_put _ _ _ _).mp mark with same | old
    · exact absurd same (by simpa using other)
    · exact unmarked old
  · rw [removed]
    exact inv.abortedDistinct.filter _
  · exact .inl noPending
  · intro disarmed
    simp [remove, inv.armed disarmed]
  · refine genuine_snoc inv.genuine fun result same => ?_
    obtain rfl : msg = result := Message.toolResult.inj same
    exact .inl real
  · refine inv.windowed.answer [msg] rfl ?_
    simpa [awaited, SecondPass.push, noPending, unanswered, removed] using
      perm_without inv.abortedDistinct key

theorem answer_pending (inv : Inv transformed seen st) {msg : ToolResultMessage} (real : msg ∈ realResults transformed)
    (unmarked : ¬has st.toolCallStatus msg.toolCallId = true)
    (open_window : msg.toolCallId ∈ st.pendingToolCalls.map ToolCall.id) :
    Inv transformed seen { st.push (.toolResult msg) with
      toolCallStatus := put st.toolCallStatus msg.toolCallId .resolved } := by
  have noAborted : st.pendingAbortedToolCalls = [] := by
    rcases inv.exclusive with empty | empty
    · rw [empty] at open_window
      cases open_window
    · exact empty
  constructor
  · intro id mark
    rcases (has_put _ _ _ _).mp mark with rfl | old
    · obtain ⟨call,inside,here⟩ := List.mem_map.mp open_window
      exact here ▸ inv.pendingSeen call inside
    · exact inv.marked id old
  · exact inv.pendingSeen
  · exact inv.pendingDistinct
  · intro entry mem
    simp [SecondPass.push, noAborted] at mem
  · exact inv.abortedDistinct
  · exact inv.exclusive
  · exact inv.armed
  · refine genuine_snoc inv.genuine fun result same => ?_
    obtain rfl : msg = result := Message.toolResult.inj same
    exact .inl real
  · refine inv.windowed.answer [msg] rfl ?_
    have ids : ∀ marks : OMap JsString ToolCallStatus,
        ((st.pendingToolCalls.filter fun call => !has marks call.id).map ToolCall.id) =
          (st.pendingToolCalls.map ToolCall.id).filter fun id => !has marks id := by
      intro marks
      rw [List.filter_map]
      rfl
    have fewer : ((st.pendingToolCalls.map ToolCall.id).filter fun id =>
        !has (put st.toolCallStatus msg.toolCallId .resolved) id) =
          (((st.pendingToolCalls.map ToolCall.id).filter fun id => !has st.toolCallStatus id).filter
            fun id => id ≠ msg.toolCallId) := by
      rw [List.filter_filter]
      apply List.filter_congr
      intro id _
      have grown := has_put st.toolCallStatus msg.toolCallId ToolCallStatus.resolved id
      rw [Bool.eq_iff_iff]
      simp only [Bool.not_eq_true', ← Bool.not_eq_true, grown, not_or, Bool.and_eq_true,
        decide_eq_true_eq, ne_eq]
    have waiting : msg.toolCallId ∈
        (st.pendingToolCalls.map ToolCall.id).filter fun id => !has st.toolCallStatus id :=
      List.mem_filter.mpr ⟨open_window,by simpa using unmarked⟩
    simp only [awaited, SecondPass.push, unanswered, noAborted, List.map_nil, List.append_nil,
      List.map_cons, ids, fewer]
    exact perm_without (inv.pendingDistinct.filter _) waiting

theorem push_plain (inv : Inv transformed seen st) (none_awaited : awaited st = []) (plain : msg.isUserOrDeveloper = true) : Inv transformed seen (st.push msg) where
  marked := inv.marked
  pendingSeen := inv.pendingSeen
  pendingDistinct := inv.pendingDistinct
  abortedOwn := inv.abortedOwn
  abortedDistinct := inv.abortedDistinct
  exclusive := inv.exclusive
  armed := inv.armed
  genuine := genuine_snoc inv.genuine fun result same => by simp [same, Message.isUserOrDeveloper] at plain
  windowed := .inl ⟨(inv.windowed.paired none_awaited).snoc plain,none_awaited⟩

theorem handleOrphan_inv (inv : Inv transformed seen st) (msg : ToolResultMessage) :
    Inv transformed seen (st.handleOrphan msg) ∧ st.result <+: (st.handleOrphan msg).result := by
  rw [SecondPass.handleOrphan]
  split
  · exact ⟨inv,List.prefix_refl _⟩
  · rename_i closed
    rw [Bool.or_eq_true, not_or] at closed
    obtain ⟨allMarked,noAborted⟩ := closed
    have none_awaited : awaited st = [] := by
      have answered : unanswered st st.pendingToolCalls = [] := by
        rw [unanswered, List.filter_eq_nil_iff]
        intro call mem here
        exact allMarked (List.any_eq_true.mpr ⟨call,mem,here⟩)
      have empty : st.pendingAbortedToolCalls = [] := by simpa using noAborted
      simp [awaited, answered, empty]
    simp only
    split
    · exact ⟨inv,List.prefix_refl _⟩
    · exact ⟨push_plain inv none_awaited rfl,List.prefix_append _ _⟩

theorem handleToolResult_inv (inv : Inv transformed seen st) {msg : ToolResultMessage} (real : msg ∈ realResults transformed) :
    Inv transformed seen (st.handleToolResult (indexHistory transformed) msg) ∧
      st.result <+: (st.handleToolResult (indexHistory transformed) msg).result := by
  rw [SecondPass.handleToolResult]
  split
  · exact ⟨inv,List.prefix_refl _⟩
  rename_i unmarked
  split
  · rename_i aborted
    exact ⟨answer_aborted inv real aborted,List.prefix_append _ _⟩
  split
  · rename_i pending
    obtain ⟨call,mem,here⟩ := List.any_eq_true.mp pending
    have known : msg.toolCallId ∈ st.pendingToolCalls.map ToolCall.id :=
      List.mem_map.mpr ⟨call,mem,by simpa using here⟩
    exact ⟨answer_pending inv real unmarked known,List.prefix_append _ _⟩
  split
  · exact ⟨inv,List.prefix_refl _⟩
  · exact handleOrphan_inv inv msg

/-- A turn opens a window for its calls, whose ids are new. -/
theorem handleAssistant_inv (inv : Inv transformed seen st) (dropped : Bool) {msg : AssistantMessage}
    (fresh : (seen ++ msg.toolCalls.map ToolCall.id).Nodup) :
    Inv transformed (seen ++ msg.toolCalls.map ToolCall.id)
        (st.handleAssistant (indexHistory transformed) dropped msg) ∧
      st.result <+: (st.handleAssistant (indexHistory transformed) dropped msg).result := by
  obtain ⟨idle,grown⟩ := flushAll_idle inv msg.timestamp
  obtain ⟨_,distinct,apart⟩ := List.nodup_append.mp fresh
  have flushed := idle.inv.mono (List.subset_append_left seen (msg.toolCalls.map ToolCall.id))
  rw [SecondPass.handleAssistant]
  generalize st.flushAll (indexHistory transformed) msg.timestamp = idleSt at *
  have pushed : ∀ result, .toolResult result ∈ idleSt.result ++ [.assistant msg] →
      Genuine transformed result := genuine_snoc flushed.genuine fun result same => nomatch same
  have unmarked : ∀ call ∈ msg.toolCalls, ¬has idleSt.toolCallStatus call.id = true :=
    fun call mem mark => apart _ (idle.inv.marked _ mark) _ (List.mem_map_of_mem mem) rfl
  cases dropped with
  | true =>
    simp only [if_true]
    split
    · refine ⟨?_,grown⟩
      exact { flushed with
        abortedOwn := fun entry mem => by cases mem
        abortedDistinct := List.nodup_nil
        exclusive := .inr rfl
        armed := fun _ => rfl
        windowed := .inl ⟨idle.paired,by simp [awaited, unanswered, idle.pending]⟩ }
    · exact ⟨flushed,grown⟩
  | false =>
    simp only [Bool.false_eq_true, if_false]
    split
    · refine ⟨?_,grown.trans (List.prefix_append _ _)⟩
      have listed : ofList (msg.toolCalls.map fun call => (call.id, call)) =
          msg.toolCalls.map fun call => (call.id, call) := by
        apply ofList_distinct
        rw [List.map_map]
        exact distinct
      have keys : (msg.toolCalls.map fun call => (call.id, call)).map Prod.fst =
          msg.toolCalls.map ToolCall.id := by rw [List.map_map]; rfl
      rw [listed]
      exact { flushed with
        abortedOwn := fun entry mem => by
          obtain ⟨call,inside,rfl⟩ := List.mem_map.mp mem
          exact ⟨rfl,List.mem_append_right _ (List.mem_map_of_mem inside),unmarked call inside⟩
        abortedDistinct := by rw [keys]; exact distinct
        exclusive := .inl idle.pending
        armed := fun disarmed => nomatch disarmed
        genuine := pushed
        windowed := .inr ⟨idleSt.result,msg,[],rfl,idle.paired,by
          simp [awaited, SecondPass.push, idle.pending, unanswered, Function.comp_def]⟩ }
    · split
      · rename_i noCalls
        have empty : msg.toolCalls = [] := by simpa using noCalls
        have alone : Paired [.assistant msg] := Paired.turn msg [] [] (by simp [empty]) .nil
        refine ⟨?_,grown.trans (List.prefix_append _ _)⟩
        exact { flushed with
          genuine := pushed
          windowed := .inl ⟨idle.paired.append alone,
            by simp [awaited, SecondPass.push, idle.pending, idle.aborted, unanswered]⟩ }
      · refine ⟨?_,grown.trans (List.prefix_append _ _)⟩
        have all : unanswered idleSt msg.toolCalls = msg.toolCalls := by
          rw [unanswered, List.filter_eq_self]
          intro call mem
          simpa using unmarked call mem
        have waiting : awaited { idleSt.push (.assistant msg) with pendingToolCalls := msg.toolCalls } =
            msg.toolCalls.map ToolCall.id := by
          change (unanswered idleSt msg.toolCalls).map ToolCall.id ++
            idleSt.pendingAbortedToolCalls.map Prod.fst = _
          rw [all, idle.aborted, List.map_nil, List.append_nil]
        exact { flushed with
          pendingSeen := fun call mem => List.mem_append_right _ (List.mem_map_of_mem mem)
          pendingDistinct := distinct
          exclusive := .inr idle.aborted
          genuine := pushed
          windowed := .inr ⟨idleSt.result,msg,[],rfl,idle.paired,by
            rw [waiting]
            exact List.Perm.refl _⟩ }

def callIds (msg : Message) : List JsString := msg.toolCalls.map ToolCall.id

theorem step_inv (inv : Inv transformed seen st) (original : Message) (mem : msg ∈ transformed)
    (fresh : (seen ++ callIds msg).Nodup) :
    Inv transformed (seen ++ callIds msg) (st.step (indexHistory transformed) original msg) ∧
      (st.result ++ [msg].filter Message.isUserOrDeveloper).Sublist
        (st.step (indexHistory transformed) original msg).result := by
  cases msg with
  | assistant turn =>
    obtain ⟨kept,grown⟩ := handleAssistant_inv inv (dropsOriginal original) fresh
    have none_plain : [Message.assistant turn].filter Message.isUserOrDeveloper = [] := rfl
    rw [none_plain, List.append_nil]
    exact ⟨kept,grown.sublist⟩
  | toolResult result =>
    have real : result ∈ realResults transformed := List.mem_filterMap.mpr ⟨_,mem,rfl⟩
    obtain ⟨kept,grown⟩ := handleToolResult_inv inv real
    have none_plain : [Message.toolResult result].filter Message.isUserOrDeveloper = [] := rfl
    rw [none_plain, List.append_nil]
    exact ⟨kept.mono (List.subset_append_left _ _),grown.sublist⟩
  | user msg =>
    obtain ⟨idle,grown⟩ := flushAll_idle inv msg.timestamp
    have quiet : awaited (st.flushAll (indexHistory transformed) msg.timestamp) = [] := by
      simp [awaited, idle.pending, idle.aborted, unanswered]
    exact ⟨(push_plain idle.inv quiet rfl).mono (List.subset_append_left _ _),
      (grown.sublist.append (List.Sublist.refl [Message.user msg]))⟩
  | developer msg =>
    obtain ⟨idle,grown⟩ := flushAll_idle inv msg.timestamp
    have quiet : awaited (st.flushAll (indexHistory transformed) msg.timestamp) = [] := by
      simp [awaited, idle.pending, idle.aborted, unanswered]
    exact ⟨(push_plain idle.inv quiet rfl).mono (List.subset_append_left _ _),
      (grown.sublist.append (List.Sublist.refl [Message.developer msg]))⟩

theorem run_inv (entries : List (Message × Message)) (inv : Inv transformed seen st)
    (known : ∀ entry ∈ entries, entry.2 ∈ transformed) (fresh : (seen ++ (entries.map Prod.snd).flatMap callIds).Nodup) :
    ∃ seen', Inv transformed seen' (st.run (indexHistory transformed) entries) ∧
      (st.result ++ (entries.map Prod.snd).filter Message.isUserOrDeveloper).Sublist
        (st.run (indexHistory transformed) entries).result := by
  induction entries generalizing st seen with
  | nil => exact ⟨seen,inv,by simp [SecondPass.run]⟩
  | cons entry entries ih =>
    obtain ⟨original,msg⟩ := entry
    rw [List.map_cons, List.flatMap_cons, ← List.append_assoc] at fresh
    have first : (seen ++ callIds msg).Nodup := (List.nodup_append.mp fresh).1
    obtain ⟨stepped,kept⟩ := step_inv inv original (known _ List.mem_cons_self) first
    obtain ⟨seen',final,rest⟩ :=
      ih stepped (fun entry mem => known entry (List.mem_cons_of_mem _ mem)) fresh
    refine ⟨seen',final,List.Sublist.trans ?_ rest⟩
    have split : ((original, msg) :: entries).map Prod.snd = [msg] ++ entries.map Prod.snd := rfl
    rw [split, List.filter_append, ← List.append_assoc]
    exact kept.append (List.Sublist.refl _)

theorem start_inv (transformed : List Message) : Inv transformed [] SecondPass.start where
  marked id mark := by simp [SecondPass.start, has] at mark
  pendingSeen call mem := by cases mem
  pendingDistinct := List.nodup_nil
  abortedOwn entry mem := by cases mem
  abortedDistinct := List.nodup_nil
  exclusive := .inl rfl
  armed _ := rfl
  genuine result mem := by cases mem
  windowed := .inl ⟨.nil,rfl⟩

/- The first pass adapts messages one by one. -/

theorem firstPassFrom_length (model : Model) (normalize : Option NormalizeToolCallId)
    (latest : Option Nat) (index : Nat) (ids : OMap JsString JsString) (messages : List Message) :
    (firstPassFrom model normalize latest index ids messages).length = messages.length := by
  induction messages generalizing index ids with
  | nil => rfl
  | cons msg rest ih => cases msg <;> simp [firstPassFrom, ih]

theorem firstPassFrom_plain (model : Model) (normalize : Option NormalizeToolCallId)
    (latest : Option Nat) (index : Nat) (ids : OMap JsString JsString) (messages : List Message) :
    (firstPassFrom model normalize latest index ids messages).filter Message.isUserOrDeveloper =
      messages.filter Message.isUserOrDeveloper := by
  induction messages generalizing index ids with
  | nil => rfl
  | cons msg rest ih =>
    cases msg <;> simp [firstPassFrom, List.filter_cons, Message.isUserOrDeveloper, ih]

/-- For every history whose call ids stay distinct: calls and results are paired, a result is
    real whenever one exists, and user and developer messages stay in order. -/
theorem transformMessages_paired (messages : List Message) (model : Model)
    (normalize : Option NormalizeToolCallId) (now : Int)
    (distinct : ((firstPass model normalize messages).flatMap callIds).Nodup) :
    Paired (transformMessages messages model normalize now) ∧
      (∀ result, .toolResult result ∈ transformMessages messages model normalize now →
        (∃ real, .toolResult real ∈ firstPass model normalize messages ∧
          real.toolCallId = result.toolCallId) →
        .toolResult result ∈ firstPass model normalize messages) ∧
      (messages.filter Message.isUserOrDeveloper).Sublist
        (transformMessages messages model normalize now) := by
  have aligned : (firstPass model normalize messages).length = messages.length :=
    firstPassFrom_length model normalize _ 0 [] messages
  have second : (messages.zip (firstPass model normalize messages)).map Prod.snd =
      firstPass model normalize messages := by
    rw [List.map_snd_zip]
    omega
  have known : ∀ entry ∈ messages.zip (firstPass model normalize messages),
      entry.2 ∈ firstPass model normalize messages := fun entry mem => (List.of_mem_zip mem).2
  obtain ⟨seen,ran,kept⟩ := run_inv (messages.zip (firstPass model normalize messages))
    (start_inv (firstPass model normalize messages)) known (by simpa [second] using distinct)
  obtain ⟨idle,grown⟩ := flushAll_idle ran now
  refine ⟨idle.paired,fun result mem ⟨real,inside,same⟩ => ?_,?_⟩
  · rcases idle.inv.genuine result mem with found | none_real
    · obtain ⟨msg,here,is_result⟩ := List.mem_filterMap.mp found
      cases msg with
      | toolResult own =>
        obtain rfl : own = result := Option.some.inj is_result
        exact here
      | _ => nomatch is_result
    · refine absurd ?_ none_real
      exact List.mem_map.mpr ⟨real,List.mem_filterMap.mpr ⟨_,inside,rfl⟩,same⟩
  · rw [second, firstPass, firstPassFrom_plain] at kept
    exact kept.trans grown.sublist

def searchTurn : Message :=
  .assistant ⟨[.toolCall ⟨js "a",js "search",.obj [],none,none,none⟩,
    .toolCall ⟨js "b",js "read",.obj [],none,none,none⟩],js "openai",js "x",js "m",.toolUse,1⟩

def lateHistory : List Message :=
  [searchTurn, .user ⟨.plain (js "go on"),2⟩,
    .toolResult ⟨js "b",js "read",[.text ⟨js "text",none⟩],false,3⟩]

def targetModel : Model := ⟨js "m2",js "anthropic-messages",js "y"⟩

theorem transformMessages_paired_late :
    Paired (transformMessages lateHistory targetModel none 9) ∧
      transformMessages lateHistory targetModel none 9 =
        [searchTurn, .toolResult ⟨js "a",js "search",[.text ⟨js "No result provided",none⟩],true,2⟩,
          .toolResult ⟨js "b",js "read",[.text ⟨js "text",none⟩],false,3⟩,
          .user ⟨.plain (js "go on"),2⟩] :=
  ⟨(transformMessages_paired lateHistory targetModel none 9 (by decide)).1,by decide⟩

end Providers
