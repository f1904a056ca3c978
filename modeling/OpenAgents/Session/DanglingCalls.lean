import OpenAgents.Session.Context

/- What the context of a leaf makes of tool calls whose results are off its path. -/
namespace Session
open JsText JsJson Conversation OrderedMap ParentChain

def AgentMessage.calls : AgentMessage → List ToolCall
  | .assistant message _ => message.toolCalls
  | _ => []

/- No message of the list is a result of the call. -/
def Dangles (messages : List Sourced) (call : ToolCall) : Prop :=
  ∀ s ∈ messages, s.message.toolResultId ≠ some call.id

/- Neither encrypted thinking nor a signature. -/
def Unsigned : AssistantBlock → Prop
  | .redactedThinking _ => False
  | .thinking content => truthy content.thinkingSignature = false
  | _ => True

/- What a rewritten turn has to drop. -/
def Dropped (messages : List Sourced) : AssistantBlock → Prop
  | .toolCall call => Dangles messages call
  | .redactedThinking _ => True
  | _ => False

/-- A block and what it says; its signature may be gone. -/
inductive SameBlock : AssistantBlock → AssistantBlock → Prop where
  | whole (block : AssistantBlock) : SameBlock block block
  | unsigned (content : ThinkingContent) :
      SameBlock (.thinking content) (.thinking { content with thinkingSignature := none })

/-- The blocks of a rewritten turn: those it need not drop, in order, without signatures. -/
inductive Rewritten (messages : List Sourced) : List AssistantBlock → List AssistantBlock → Prop where
  | nil : Rewritten messages [] []
  | dropped {block rest left} (drop : Dropped messages block) (later : Rewritten messages rest left) :
      Rewritten messages (block :: rest) left
  | kept {block block' rest left} (keep : ¬Dropped messages block) (same : SameBlock block block')
      (unsigned : Unsigned block') (later : Rewritten messages rest left) :
      Rewritten messages (block :: rest) (block' :: left)

/-- The second list comes from the first turn by turn: one without dangling calls stays, another
    is rewritten, and removed when nothing is left of it. -/
inductive Stripped (messages : List Sourced) : List Sourced → List Sourced → Prop where
  | nil : Stripped messages [] []
  | unchanged {s rest stripped} (answered : ∀ call ∈ s.message.calls, ¬Dangles messages call)
      (later : Stripped messages rest stripped) : Stripped messages (s :: rest) (s :: stripped)
  | rewritten {entry message usage content rest stripped}
      (dangling : ∃ call ∈ AssistantMessage.toolCalls message, Dangles messages call)
      (blocks : Rewritten messages message.content content) (left : content ≠ [])
      (later : Stripped messages rest stripped) :
      Stripped messages (⟨entry,.assistant message usage⟩ :: rest)
        (⟨entry,.assistant { message with content := content } usage⟩ :: stripped)
  | removed {entry message usage rest stripped}
      (dangling : ∃ call ∈ AssistantMessage.toolCalls message, Dangles messages call)
      (blocks : Rewritten messages message.content []) (later : Stripped messages rest stripped) :
      Stripped messages (⟨entry,.assistant message usage⟩ :: rest) stripped

variable {id : JsString} {call : ToolCall} {block : AssistantBlock}

/- Blocks -/

theorem mem_paired_iff {messages : List Sourced} :
    id ∈ pairedToolResultIds messages ↔ ∃ s ∈ messages, s.message.toolResultId = some id :=
  List.mem_filterMap

theorem dangles_iff {messages : List Sourced} : Dangles messages call ↔ call.id ∉ pairedToolResultIds messages := by
  rw [mem_paired_iff]
  constructor
  · rintro dangles ⟨s,mem,result⟩
    exact dangles s mem result
  · intro absent s mem result
    exact absent ⟨s,mem,result⟩

theorem any_dangling_iff {messages : List Sourced} (message : AssistantMessage) :
    message.content.any (isDangling (pairedToolResultIds messages)) = true ↔
      ∃ call ∈ message.toolCalls, Dangles messages call := by
  simp only [List.any_eq_true, AssistantMessage.toolCalls, List.mem_filterMap]
  constructor
  · rintro ⟨block,mem,dangling⟩
    cases block with
    | toolCall call => exact ⟨call,⟨_,mem,rfl⟩,dangles_iff.mpr (of_decide_eq_true dangling)⟩
    | text _ => cases dangling
    | thinking _ => cases dangling
    | redactedThinking _ => cases dangling
  · rintro ⟨call,⟨block,mem,is_call⟩,dangles⟩
    refine ⟨block,mem,?_⟩
    cases block with
    | toolCall other =>
      cases is_call
      exact decide_eq_true (dangles_iff.mp dangles)
    | text _ => cases is_call
    | thinking _ => cases is_call
    | redactedThinking _ => cases is_call

theorem normalizeBlocks_dropped {messages : List Sourced} (drop : Dropped messages block) (rest : List AssistantBlock) : normalizeBlocks (pairedToolResultIds messages) (block :: rest) =
      normalizeBlocks (pairedToolResultIds messages) rest := by
  cases block with
  | toolCall call =>
    have absent := dangles_iff.mp drop
    simp [normalizeBlocks, isDangling, absent]
  | redactedThinking _ => simp [normalizeBlocks]
  | text _ => exact absurd drop not_false
  | thinking _ => exact absurd drop not_false

theorem normalizeBlocks_kept {messages : List Sourced} (keep : ¬Dropped messages block) (rest : List AssistantBlock) : normalizeBlocks (pairedToolResultIds messages) (block :: rest) =
      neutralize block :: normalizeBlocks (pairedToolResultIds messages) rest := by
  cases block with
  | toolCall call =>
    have present := not_not.mp (dangles_iff.not.mp keep)
    simp [normalizeBlocks, isDangling, present]
  | redactedThinking _ => exact absurd trivial keep
  | text _ => simp [normalizeBlocks, isDangling]
  | thinking _ => simp [normalizeBlocks, isDangling]

theorem neutralize_same (block : AssistantBlock) : SameBlock block (neutralize block) := by
  cases block with
  | thinking content =>
    rw [neutralize]
    by_cases signed : truthy content.thinkingSignature = true
    · rw [if_pos signed]
      exact .unsigned content
    · rw [if_neg signed]
      exact .whole _
  | text _ => exact .whole _
  | redactedThinking _ => exact .whole _
  | toolCall _ => exact .whole _

theorem neutralize_unsigned {messages : List Sourced} (kept : ¬Dropped messages block) : Unsigned (neutralize block) := by
  cases block with
  | thinking content =>
    rw [neutralize]
    by_cases signed : truthy content.thinkingSignature = true
    · rw [if_pos signed]
      exact rfl
    · rw [if_neg signed]
      exact Bool.eq_false_iff.mpr signed
  | text _ => trivial
  | redactedThinking _ => exact absurd trivial kept
  | toolCall _ => trivial

theorem normalizeBlocks_rewritten (messages : List Sourced) (content : List AssistantBlock) :
    Rewritten messages content (normalizeBlocks (pairedToolResultIds messages) content) := by
  induction content with
  | nil => exact .nil
  | cons block rest ih =>
    by_cases drop : Dropped messages block
    · rw [normalizeBlocks_dropped drop]
      exact .dropped drop ih
    · rw [normalizeBlocks_kept drop]
      exact .kept drop (neutralize_same block) (neutralize_unsigned drop) ih

/- Messages -/

theorem strip_stripped (messages rest : List Sourced) :
    Stripped messages rest (rest.filterMap fun s =>
      (stripDangling (pairedToolResultIds messages) s.message).map fun message => ⟨s.entry,message⟩) := by
  induction rest with
  | nil => exact .nil
  | cons s rest ih =>
    obtain ⟨entry,message⟩ := s
    rw [List.filterMap_cons]
    cases message with
    | assistant message usage =>
      by_cases dangling : message.content.any (isDangling (pairedToolResultIds messages)) = true
      · have blocks := normalizeBlocks_rewritten messages message.content
        rw [stripDangling, if_pos dangling]
        by_cases empty : normalizeBlocks (pairedToolResultIds messages) message.content = []
        · rw [if_pos empty]
          rw [empty] at blocks
          exact .removed ((any_dangling_iff message).mp dangling) blocks ih
        · rw [if_neg empty]
          exact .rewritten ((any_dangling_iff message).mp dangling) blocks empty ih
      · rw [stripDangling, if_neg dangling]
        refine .unchanged ?_ ih
        intro call mem dangles
        exact dangling ((any_dangling_iff message).mpr ⟨call,mem,dangles⟩)
    | _ => exact .unchanged (fun _ mem => absurd mem List.not_mem_nil) ih

/-- Only turns of the assistant change. -/
theorem Stripped.keeps_results {messages rest stripped : List Sourced} (strips : Stripped messages rest stripped)
    {s : Sourced} (mem : s ∈ rest) (result : s.message.toolResultId = some id) : s ∈ stripped := by
  induction strips with
  | nil => cases mem
  | unchanged _ _ ih =>
    rcases List.mem_cons.mp mem with rfl | later
    · exact List.mem_cons_self
    · exact List.mem_cons_of_mem _ (ih later)
  | rewritten _ _ _ _ ih =>
    rcases List.mem_cons.mp mem with rfl | later
    · cases result
    · exact List.mem_cons_of_mem _ (ih later)
  | removed _ _ _ ih =>
    rcases List.mem_cons.mp mem with rfl | later
    · cases result
    · exact ih later

theorem Rewritten.answered {messages : List Sourced} {content left : List AssistantBlock}
    (rewritten : Rewritten messages content left) (mem : .toolCall call ∈ left) : ¬Dangles messages call := by
  induction rewritten with
  | nil => cases mem
  | dropped _ _ ih => exact ih mem
  | kept keep same _ _ ih =>
    rcases List.mem_cons.mp mem with here | later
    · cases same with
      | whole block =>
        rw [← here] at keep
        exact keep
      | unsigned content => cases here
    · exact ih later

theorem Stripped.answered {messages rest stripped : List Sourced} (strips : Stripped messages rest stripped)
    {s : Sourced} (mem : s ∈ stripped) {call : ToolCall} (calls : call ∈ s.message.calls) :
    ¬Dangles messages call := by
  induction strips with
  | nil => cases mem
  | unchanged answered _ ih =>
    rcases List.mem_cons.mp mem with rfl | later
    · exact answered call calls
    · exact ih later
  | rewritten _ blocks _ _ ih =>
    rcases List.mem_cons.mp mem with rfl | later
    · obtain ⟨block,among,is_call⟩ := List.mem_filterMap.mp calls
      cases block with
      | toolCall other =>
        cases is_call
        exact blocks.answered among
      | text _ => cases is_call
      | thinking _ => cases is_call
      | redactedThinking _ => cases is_call
    · exact ih later
  | removed _ _ _ ih => exact ih mem

/- Contexts -/

/- The entry whose path is shown. -/
def shownLeaf (entries : List SessionEntry) (leafId : LeafId) (byId : OMap JsString SessionEntry) :
    Option SessionEntry :=
  if leafId = .null then none else (lookupId byId leafId.text).or entries.getLast?

theorem buildSessionContext_shown (entries : List SessionEntry) (leafId : LeafId)
    (byId : Option (OMap JsString SessionEntry)) {path : List SessionEntry}
    (climbed : pathFrom (byId.getD (indexById entries))
      (shownLeaf entries leafId (byId.getD (indexById entries))) = some path) :
    ∃ context, buildSessionContext entries leafId byId = some context ∧
      context.messages = contextMessages path := by
  unfold buildSessionContext
  unfold shownLeaf at climbed
  dsimp only
  split
  · rename_i null
    rw [if_pos null, pathFrom, climb_none] at climbed
    cases climbed
    exact ⟨_,rfl,rfl⟩
  · rename_i named
    rw [if_neg named] at climbed
    split
    · rename_i no_leaf
      rw [no_leaf, pathFrom, climb_none] at climbed
      cases climbed
      exact ⟨_,rfl,rfl⟩
    · rw [climbed]
      exact ⟨_,rfl,rfl⟩

theorem parent_indexed {byId : OMap JsString SessionEntry} {child parent : SessionEntry}
    (link : parentEntry byId child = some parent) : parent ∈ byId.map Prod.snd := by
  obtain ⟨id,-,here⟩ := Option.bind_eq_some_iff.mp link
  split at here
  · cases here
  exact List.mem_map_of_mem (get?_some_mem here)

/-- In a tree without cycles every leaf has a context; its messages are those of its path with the dangling
calls stripped, and each call left has its result among them. -/
theorem dangling_calls_stripped (entries : List SessionEntry) (leafId : LeafId)
    (byId : Option (OMap JsString SessionEntry))
    (acyclic : Acyclic (parentEntry (byId.getD (indexById entries)))) :
    ∃ path context, pathFrom (byId.getD (indexById entries))
        (shownLeaf entries leafId (byId.getD (indexById entries))) = some path ∧
      buildSessionContext entries leafId byId = some context ∧
      Stripped (emittedMessages path) (emittedMessages path) context.messages ∧
      ∀ s ∈ context.messages, ∀ call ∈ s.message.calls,
        ∃ r ∈ context.messages, r.message.toolResultId = some call.id := by
  obtain ⟨path,climbed⟩ := climb_acyclic acyclic (fun _ _ => parent_indexed)
    (by rw [List.length_map]; exact Nat.lt_succ_self _) (shownLeaf entries leafId (byId.getD (indexById entries)))
  obtain ⟨context,built,messages⟩ := buildSessionContext_shown entries leafId byId climbed
  have strips : Stripped (emittedMessages path) (emittedMessages path) context.messages := by
    rw [messages]
    exact strip_stripped _ _
  refine ⟨path,context,climbed,built,strips,?_⟩
  intro s mem call calls
  have answered := strips.answered mem calls
  unfold Dangles at answered
  push Not at answered
  obtain ⟨r,among,result⟩ := answered
  exact ⟨r,strips.keeps_results among result,result⟩

/- Of two parallel calls one has its result on the path. -/
def oneAnswered : List SessionEntry :=
  [userEntry (js "a") none (js "x"),
    ⟨js "b",some (js "a"),0,.message (.assistant
      ⟨[.thinking ⟨js "why",some (js "signed"),none⟩, .toolCall ⟨js "one",js "read",.obj [],none,none,none⟩,
        .toolCall ⟨js "two",js "read",.obj [],none,none,none⟩],js "api",js "provider",js "model",.toolUse,0⟩
      none)⟩,
    ⟨js "c",some (js "b"),0,.message (.toolResult ⟨js "one",js "read",[],false,0⟩)⟩]

theorem oneAnswered_acyclic : Acyclic (parentEntry (indexById oneAnswered)) := by
  refine acyclic_ranked (fun e => if e.parentId = none then 0 else if e.parentId = some (js "a") then 1
    else if e.parentId = some (js "b") then 2 else 3) ?_
  intro child parent link
  have indexed : indexById oneAnswered = index oneAnswered := indexById_eq (by decide)
  rw [indexed] at link
  obtain ⟨mem,named⟩ := lookup_source link
  simp only [oneAnswered, List.mem_cons, List.not_mem_nil, or_false] at mem
  rcases mem with rfl | rfl | rfl <;> rw [named] <;> decide

theorem dangling_calls_stripped_parallel : ∃ context,
    buildSessionContext oneAnswered .undefined none = some context ∧
    ∀ s ∈ context.messages, ∀ call ∈ s.message.calls,
      ∃ r ∈ context.messages, r.message.toolResultId = some call.id := by
  obtain ⟨-,context,-,built,-,paired⟩ := dangling_calls_stripped oneAnswered .undefined none oneAnswered_acyclic
  exact ⟨context,built,paired⟩

end Session
