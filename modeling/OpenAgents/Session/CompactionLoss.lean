import OpenAgents.Session.Context
import OpenAgents.Session.CutPoint

/- What a compaction takes out of the context: an entry that is neither handed to
   the summarizer nor kept behind the cut. -/
namespace Session
open JsText JsJson Conversation OrderedMap ParentChain LastIndex

/- The call results that a stretch of entries holds. -/
def resultIds (entries : List SessionEntry) : List JsString :=
  entries.filterMap fun e =>
    match e.body with
    | .message message => message.toolResultId
    | _ => none

/- An assistant turn with a call that no result answers has something else to show. -/
def KeepsContent (results : List JsString) (e : SessionEntry) : Prop :=
  ∀ message usage, e.body = .message (.assistant message usage) →
    message.content.any (isDangling results) = true → normalizeBlocks results message.content ≠ []

def Produced (context : SessionContext) (e : SessionEntry) : Prop :=
  e ∈ context.messages.map Sourced.entry ∧ (getMessageFromEntry e).isSome

def HandedOver (prep : CompactionPreparation) (e : SessionEntry) : Prop :=
  e ∈ (prep.messagesToSummarize ++ prep.turnPrefixMessages).map Sourced.entry

/-- What the context shows stands behind the latest compaction, and what stands
    behind the new cut is kept as messages. -/
structure KeepsAll (context : SessionContext) (path : List SessionEntry) (c : Compaction) : Prop where
  behind : ∀ e, Produced context e → e ∈ sinceCompaction path
  kept : ∀ e, Produced context e → e ∈ keptFrom path c.firstKeptEntryId →
    c.providerPayload = none ∧ KeepsContent (resultIds (keptFrom path c.firstKeptEntryId)) e

variable {e last : SessionEntry} {s : Sourced} {path : List SessionEntry} {c : Compaction}

/- Emitted messages -/

theorem appendMessage_source (added : appendMessage e = some s) : s.entry = e ∧ getMessageFromEntry e = some s.message := by
  unfold appendMessage at added
  unfold getMessageFromEntry
  cases body : e.body with
  | message message =>
    simp only [body] at added
    cases added
    exact ⟨rfl,rfl⟩
  | customMessage customType content display details attribution =>
    simp only [body] at added
    cases added
    exact ⟨rfl,rfl⟩
  | branchSummary fromId summary =>
    simp only [body] at added
    split at added
    · cases added
    · cases added
      exact ⟨rfl,rfl⟩
  | _ => simp [body] at added

theorem compaction_produces_nothing (compacts : e.isCompaction = true) : getMessageFromEntry e = none := by
  unfold SessionEntry.isCompaction SessionEntry.compaction? at compacts
  unfold getMessageFromEntry
  cases body : e.body <;> simp_all

theorem emitted_source (mem : s ∈ emittedMessages path) :
    s.entry.isCompaction = true ∨ s.entry ∈ path ∧ appendMessage s.entry = some s := by
  have from_part : ∀ part : List SessionEntry, part ⊆ path → s ∈ part.filterMap appendMessage →
      s.entry ∈ path ∧ appendMessage s.entry = some s := by
    intro part inside added
    obtain ⟨e,e_mem,made⟩ := List.mem_filterMap.mp added
    obtain ⟨rfl,-⟩ := appendMessage_source made
    exact ⟨inside e_mem,made⟩
  unfold emittedMessages at mem
  cases latest : latestCompaction path with
  | none =>
    rw [latest] at mem
    exact .inr (from_part path (List.Subset.refl path) mem)
  | some found =>
    obtain ⟨entry,c⟩ := found
    simp only [latest, List.cons_append, List.mem_cons, List.mem_append] at mem
    rcases mem with rfl | kept | later
    · left
      obtain ⟨e,-,same⟩ := List.exists_of_findSome?_eq_some latest
      obtain ⟨body,is_body,pair⟩ := Option.map_eq_some_iff.mp same
      cases pair
      simp [SessionEntry.isCompaction, is_body]
    · right
      split at kept
      · cases kept
      · refine from_part _ ?_ kept
        exact fun e inside => List.mem_of_mem_take ((List.dropWhile_sublist _).subset inside)
    · exact .inr (from_part _ (List.drop_subset _ path) later)

theorem emitted_compacted (whole : SessionPath (path ++ [last])) (body : last.body = .compaction c) :
    emittedMessages (path ++ [last]) = ⟨last,c.summaryMessage last.timestamp⟩ ::
      (if c.providerPayload.isSome then []
      else (keptFrom path c.firstKeptEntryId).filterMap appendMessage) := by
  have compacts : last.compaction? = some c := by
    simp [SessionEntry.compaction?, body]
  simpa using emitted_split whole.distinct compacts (by simp)

theorem produced_source (made : Produced (pathContext path) e) : e ∈ path ∧ ∃ s, appendMessage e = some s := by
  obtain ⟨mem,produces⟩ := made
  obtain ⟨shown,shown_mem,rfl⟩ := List.mem_map.mp mem
  obtain ⟨s,emitted,stripped⟩ := List.mem_filterMap.mp shown_mem
  obtain ⟨message,-,rfl⟩ := Option.map_eq_some_iff.mp stripped
  rcases emitted_source emitted with compacts | inside
  · rw [compaction_produces_nothing compacts] at produces
    cases produces
  · exact ⟨inside.1,s,inside.2⟩

/- Stripping -/

theorem stripDangling_keeps {results : List JsString} (added : appendMessage e = some s) :
    (stripDangling results s.message).isSome ↔ KeepsContent results e := by
  unfold KeepsContent
  obtain ⟨rfl,produced⟩ := appendMessage_source added
  by_cases turn : ∃ message usage, s.entry.body = .message (.assistant message usage)
  · obtain ⟨message,usage,body⟩ := turn
    have is_message : s.message = .assistant message usage := by
      simpa [getMessageFromEntry, body] using produced.symm
    rw [is_message, body]
    simp only [stripDangling]
    constructor
    · intro kept other otherUsage same dangling
      cases same
      rw [if_pos dangling] at kept
      intro empty
      simp [empty] at kept
    · intro content
      split
      · rename_i dangling
        have filled := content message usage rfl dangling
        simp [filled]
      · rfl
  · have keeps : stripDangling results s.message = some s.message := by
      cases message : s.message with
      | assistant m usage =>
        exfalso
        rw [message] at produced
        refine turn ⟨m,usage,?_⟩
        unfold getMessageFromEntry at produced
        split at produced
        · rename_i body
          cases produced
          exact body
        · cases produced
        · cases produced
        · cases produced
      | _ => rfl
    rw [keeps]
    constructor
    · intro _ message usage body
      exact absurd ⟨message,usage,body⟩ turn
    · intro _
      rfl

theorem pairedToolResultIds_kept (entries : List SessionEntry) :
    pairedToolResultIds (entries.filterMap appendMessage) = resultIds entries := by
  unfold pairedToolResultIds resultIds
  rw [List.filterMap_filterMap]
  congr 1
  funext e
  unfold appendMessage
  cases body : e.body with
  | branchSummary fromId summary =>
    simp only
    split <;> rfl
  | _ => rfl

theorem produced_compacted (whole : SessionPath (path ++ [last])) (body : last.body = .compaction c)
    (added : appendMessage e = some s) :
    Produced (pathContext (path ++ [last])) e ↔ c.providerPayload = none ∧
      e ∈ keptFrom path c.firstKeptEntryId ∧
      KeepsContent (resultIds (keptFrom path c.firstKeptEntryId)) e := by
  obtain ⟨-,produced⟩ := appendMessage_source added
  have compacts : last.isCompaction = true := by
    simp [SessionEntry.isCompaction, SessionEntry.compaction?, body]
  have produces : (getMessageFromEntry e).isSome := by
    rw [produced]
    rfl
  rw [Produced, and_iff_left produces]
  simp only [pathContext, contextMessages, emitted_compacted whole body]
  cases payload : c.providerPayload with
  | some remote =>
    constructor
    · intro shown
      obtain ⟨t,t_mem,rfl⟩ := List.mem_map.mp shown
      obtain ⟨source,source_mem,stripped⟩ := List.mem_filterMap.mp t_mem
      obtain ⟨message,-,rfl⟩ := Option.map_eq_some_iff.mp stripped
      obtain rfl : source = ⟨last,c.summaryMessage last.timestamp⟩ := by simpa using source_mem
      rw [compaction_produces_nothing compacts] at produces
      cases produces
    · intro kept
      cases kept.1
  | none =>
    have no_result : (c.summaryMessage last.timestamp).toolResultId = none := rfl
    simp only [Option.isSome_none, Bool.false_eq_true, if_false, true_and]
    have paired : pairedToolResultIds (⟨last,c.summaryMessage last.timestamp⟩ ::
        (keptFrom path c.firstKeptEntryId).filterMap appendMessage) =
          resultIds (keptFrom path c.firstKeptEntryId) := by
      rw [← pairedToolResultIds_kept]
      simp [pairedToolResultIds, no_result]
    rw [paired]
    constructor
    · intro shown
      obtain ⟨t,t_mem,rfl⟩ := List.mem_map.mp shown
      obtain ⟨source,source_mem,stripped⟩ := List.mem_filterMap.mp t_mem
      obtain ⟨message,kept,rfl⟩ := Option.map_eq_some_iff.mp stripped
      rcases List.mem_cons.mp source_mem with rfl | later
      · rw [compaction_produces_nothing compacts] at produces
        cases produces
      · obtain ⟨entry,entry_mem,made⟩ := List.mem_filterMap.mp later
        obtain ⟨rfl,-⟩ := appendMessage_source made
        refine ⟨entry_mem,(stripDangling_keeps made).mp ?_⟩
        rw [kept]
        rfl
    · intro both
      obtain ⟨message,kept⟩ := Option.isSome_iff_exists.mp ((stripDangling_keeps added).mpr both.2)
      obtain ⟨rfl,-⟩ := appendMessage_source added
      refine List.mem_map.mpr ⟨⟨s.entry,message⟩,?_,rfl⟩
      refine List.mem_filterMap.mpr ⟨s,List.mem_cons_of_mem _ ?_,by rw [kept]; rfl⟩
      exact List.mem_filterMap.mpr ⟨s.entry,both.1,added⟩

/- One entry -/

theorem keptFrom_split {early : List SessionEntry} {first : SessionEntry} {later : List SessionEntry}
    (distinct : ((early ++ first :: later).map SessionEntry.id).Nodup) :
    keptFrom (early ++ first :: later) first.id = first :: later := by
  have others : ∀ e ∈ early, decide (e.id ≠ first.id) = true := by
    intro e mem
    rw [List.map_append, List.nodup_append] at distinct
    exact decide_eq_true fun same =>
      distinct.2.2 e.id (List.mem_map_of_mem mem) first.id (by simp) same
  rw [keptFrom, List.dropWhile_append_of_pos others]
  simp

section Estimates
variable (countTokens : List JsString → Nat)

variable {prep : CompactionPreparation} {e : SessionEntry}

theorem handed_over_iff {handed : List SessionEntry}
    (parts : prep.messagesToSummarize ++ prep.turnPrefixMessages = messagesFrom handed)
    (produces : (getMessageFromEntry e).isSome) : HandedOver prep e ↔ e ∈ handed := by
  rw [HandedOver, parts]
  constructor
  · intro shown
    obtain ⟨s,s_mem,rfl⟩ := List.mem_map.mp shown
    exact (mem_messagesFrom.mp s_mem).1
  · intro mem
    obtain ⟨message,made⟩ := Option.isSome_iff_exists.mp produces
    exact List.mem_map.mpr ⟨⟨e,message⟩,mem_messagesFrom.mpr ⟨mem,made⟩,rfl⟩

/-- A shown entry stands in front of the boundary, between boundary and cut, or behind the cut. -/
theorem entry_survives_iff {path : List SessionEntry} {settings : CompactionSettings}
    (prepared : prepareCompaction countTokens path settings = some prep) {last : SessionEntry} {c : Compaction}
    (whole : SessionPath (path ++ [last])) (body : last.body = .compaction c)
    (first_kept : c.firstKeptEntryId = prep.firstKeptEntryId) (made : Produced (pathContext path) e) :
    HandedOver prep e ∨ Produced (pathContext (path ++ [last])) e ↔
      e ∈ sinceCompaction path ∧ (e ∈ keptFrom path c.firstKeptEntryId →
        c.providerPayload = none ∧ KeepsContent (resultIds (keptFrom path c.firstKeptEntryId)) e) := by
  obtain ⟨handed,first,later,since,first_id,-,parts,-⟩ := prepareCompaction_parts countTokens prepared
  obtain ⟨e_mem,s,added⟩ := produced_source made
  have shape : path = path.rdropWhile (fun e => !e.isCompaction) ++ handed ++ first :: later := by
    rw [List.append_assoc, ← since, sinceCompaction, List.rdropWhile_append_rtakeWhile]
  generalize path.rdropWhile (fun e => !e.isCompaction) = front at shape
  have distinct : ((front ++ handed ++ first :: later).map SessionEntry.id).Nodup := by
    rw [← shape]
    exact whole.before.distinct
  have entries_distinct : (front ++ handed ++ first :: later).Nodup := distinct.of_map
  have kept : keptFrom path c.firstKeptEntryId = first :: later := by
    rw [first_kept, ← first_id, shape]
    exact keptFrom_split distinct
  rw [handed_over_iff parts made.2, produced_compacted whole body added, kept, since]
  rw [List.nodup_append, List.nodup_append] at entries_distinct
  rw [shape] at e_mem
  rcases List.mem_append.mp e_mem with early | behind
  · rcases List.mem_append.mp early with in_front | in_handed
    · have not_handed : e ∉ handed := fun mem => entries_distinct.1.2.2 e in_front e mem rfl
      have not_kept : e ∉ first :: later := fun mem => entries_distinct.2.2 e early e mem rfl
      simp [not_handed, not_kept]
    · have not_kept : e ∉ first :: later := fun mem => entries_distinct.2.2 e early e mem rfl
      simp [in_handed, not_kept]
  · have not_handed : e ∉ handed := fun mem =>
      entries_distinct.2.2 e (List.mem_append_right _ mem) e behind rfl
    simp only [not_handed, false_or, behind, true_and, List.mem_append, or_true, forall_const]

/-- The path may hold any number of earlier compactions. -/
theorem compaction_keeps_all_iff (path : List SessionEntry) (settings : CompactionSettings)
    (prep : CompactionPreparation) (last : SessionEntry) (c : Compaction)
    (prepared : prepareCompaction countTokens path settings = some prep)
    (whole : SessionPath (path ++ [last])) (body : last.body = .compaction c)
    (first_kept : c.firstKeptEntryId = prep.firstKeptEntryId) :
    ∃ before after, buildSessionContext path .undefined none = some before ∧
      buildSessionContext (path ++ [last]) .undefined none = some after ∧
      ((∀ e, Produced before e → HandedOver prep e ∨ Produced after e) ↔ KeepsAll before path c) := by
  have filled : path ≠ [] := by
    rintro rfl
    obtain ⟨handed,first,later,since,-⟩ := prepareCompaction_parts countTokens prepared
    simp [sinceCompaction] at since
  refine ⟨pathContext path,pathContext (path ++ [last]),
    buildSessionContext_path whole.before filled,buildSessionContext_path whole (by simp),?_⟩
  have each := fun e => entry_survives_iff countTokens prepared whole body first_kept (e := e)
  constructor
  · intro all
    exact ⟨fun e made => ((each e made).mp (all e made)).1,
      fun e made => ((each e made).mp (all e made)).2⟩
  · intro keeps e made
    exact (each e made).mpr ⟨keeps.behind e made,keeps.kept e made⟩

end Estimates

/- Short paths of user messages -/

def totalLength (fragments : List JsString) : Nat := (fragments.map List.length).sum

def compactionOf (firstKeptEntryId : JsString) : Compaction :=
  ⟨js "summary",none,firstKeptEntryId,0,none,false,none⟩

def compactionEntry (id : JsString) (parentId : Option JsString) (firstKeptEntryId : JsString) : SessionEntry :=
  ⟨id,parentId,0,.compaction (compactionOf firstKeptEntryId)⟩

def keepLastMessage : CompactionSettings := ⟨0,1,none,none⟩

def twoMessages : List SessionEntry :=
  [userEntry (js "a") none (js "x"), userEntry (js "b") (some (js "a")) (js "y")]

theorem twoMessages_prepared : (prepareCompaction totalLength twoMessages keepLastMessage).isSome = true ∧
    (prepareCompaction totalLength twoMessages keepLastMessage).map CompactionPreparation.firstKeptEntryId =
      some (js "b") := by decide +kernel

/-- The three parts of a preparation are the messages behind the last compaction, in order and each once. -/
theorem preparation_partitions (countTokens : List JsString → Nat) (path : List SessionEntry)
    (settings : CompactionSettings) (prep : CompactionPreparation)
    (prepared : prepareCompaction countTokens path settings = some prep) :
    prep.messagesToSummarize ++ prep.turnPrefixMessages ++ prep.recentMessages =
      messagesFrom (slice path (boundaryStart path) path.length) := by
  obtain ⟨handed,first,later,since,-,-,parts,recent⟩ := prepareCompaction_parts countTokens prepared
  have behind : slice path (boundaryStart path) path.length = handed ++ first :: later := by
    rw [slice_to_end, ← since]
    exact drop_lastIndex SessionEntry.isCompaction path
  rw [parts, recent, behind, messagesFrom_append]

theorem preparation_partitions_two : ∃ prep, prepareCompaction totalLength twoMessages keepLastMessage = some prep ∧
    prep.messagesToSummarize ++ prep.turnPrefixMessages ++ prep.recentMessages =
      [⟨userEntry (js "a") none (js "x"),.user ⟨.plain (js "x"),0⟩⟩,
        ⟨userEntry (js "b") (some (js "a")) (js "y"),.user ⟨.plain (js "y"),0⟩⟩] := by
  obtain ⟨prep,prepared⟩ := Option.isSome_iff_exists.mp twoMessages_prepared.1
  exact ⟨prep,prepared,preparation_partitions totalLength twoMessages keepLastMessage prep prepared⟩

theorem compaction_keeps_all_first : ∃ before after,
    buildSessionContext twoMessages .undefined none = some before ∧
    buildSessionContext (twoMessages ++ [compactionEntry (js "c") (some (js "b")) (js "b")]) .undefined none =
      some after ∧
    ∃ prep, prepareCompaction totalLength twoMessages keepLastMessage = some prep ∧
      ∀ e, Produced before e → HandedOver prep e ∨ Produced after e := by
  obtain ⟨prep,prepared⟩ := Option.isSome_iff_exists.mp twoMessages_prepared.1
  have whole : SessionPath (twoMessages ++ [compactionEntry (js "c") (some (js "b")) (js "b")]) :=
    ⟨by decide,by decide,by decide,by decide⟩
  have first_kept : js "b" = prep.firstKeptEntryId := by
    simpa [prepared] using twoMessages_prepared.2.symm
  obtain ⟨before,after,shown,shown_after,iff⟩ := compaction_keeps_all_iff totalLength twoMessages
    keepLastMessage prep _ (compactionOf (js "b")) prepared whole rfl first_kept
  obtain rfl : pathContext twoMessages = before := by
    have path_shown := buildSessionContext_path whole.before (by decide)
    exact Option.some.inj (path_shown.symm.trans shown)
  refine ⟨_,after,shown,shown_after,prep,prepared,iff.mpr ⟨?_,?_⟩⟩
  · intro e made
    have all : sinceCompaction twoMessages = twoMessages := by decide
    rw [all]
    exact (produced_source made).1
  · intro e made _
    refine ⟨rfl,?_⟩
    intro message usage body
    have user := (produced_source made).1
    simp only [twoMessages, List.mem_cons, List.not_mem_nil, or_false] at user
    rcases user with rfl | rfl <;> cases body

/- The first compaction keeps the entry `b`, the second is cut behind it. -/
def keptThenCut : List SessionEntry :=
  twoMessages ++ [compactionEntry (js "c") (some (js "b")) (js "b"),
    userEntry (js "d") (some (js "c")) (js "z"), userEntry (js "e") (some (js "d")) (js "w")]

theorem raw_kept_entry_lost :
    SessionPath (keptThenCut ++ [compactionEntry (js "f") (some (js "e")) (js "e")]) ∧
    ∃ prep before after lost, prepareCompaction totalLength keptThenCut keepLastMessage = some prep ∧
      prep.firstKeptEntryId = js "e" ∧
      buildSessionContext keptThenCut .undefined none = some before ∧
      buildSessionContext (keptThenCut ++ [compactionEntry (js "f") (some (js "e")) (js "e")]) .undefined none =
        some after ∧
      Produced before lost ∧ ¬ HandedOver prep lost ∧ ¬ Produced after lost := by
  have prepared : (prepareCompaction totalLength keptThenCut keepLastMessage).isSome = true := by
    decide +kernel
  have before : (buildSessionContext keptThenCut .undefined none).isSome = true := by decide +kernel
  have after : (buildSessionContext (keptThenCut ++ [compactionEntry (js "f") (some (js "e")) (js "e")])
      .undefined none).isSome = true := by decide +kernel
  refine ⟨⟨by decide,by decide,by decide,by decide⟩,
    (prepareCompaction totalLength keptThenCut keepLastMessage).get prepared,
    (buildSessionContext keptThenCut .undefined none).get before,
    (buildSessionContext _ .undefined none).get after,
    userEntry (js "b") (some (js "a")) (js "y"),by simp,?_,by simp,by simp,?_,?_,?_⟩
  · decide +kernel +revert
  · unfold Produced
    decide +kernel +revert
  · unfold HandedOver
    decide +kernel +revert
  · unfold Produced
    decide +kernel +revert

end Session
