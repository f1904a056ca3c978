import OpenAgents.Session.Compaction

/- What a preparation hands to the summarizer: the entries between the latest
   compaction and the first kept entry. -/
namespace Session
open JsText LastIndex

/- Entries behind the latest compaction. -/
def sinceCompaction (path : List SessionEntry) : List SessionEntry :=
  path.rtakeWhile fun e => !e.isCompaction

variable {entries : List SessionEntry}

theorem mem_messagesFrom {s : Sourced} :
    s ∈ messagesFrom entries ↔ s.entry ∈ entries ∧ getMessageFromEntry s.entry = some s.message := by
  simp only [messagesFrom, List.mem_filterMap, Option.map_eq_some_iff]
  constructor
  · intro made
    obtain ⟨entry,mem,message,produced,rfl⟩ := made
    exact ⟨mem,produced⟩
  · intro both
    exact ⟨s.entry,both.1,s.message,both.2,rfl⟩

theorem messagesFrom_append (left right : List SessionEntry) :
    messagesFrom (left ++ right) = messagesFrom left ++ messagesFrom right := by
  simp [messagesFrom]

theorem slice_append {a b c : Nat} (first : a ≤ b) (second : b ≤ c) :
    slice entries a b ++ slice entries b c = slice entries a c := by
  have early : slice entries a b = (slice entries a c).take (b - a) := by
    rw [slice, slice, List.take_drop, List.take_take]
    congr 2
    omega
  have late : slice entries b c = (slice entries a c).drop (b - a) := by
    rw [slice, slice, List.drop_drop]
    congr 1
    omega
  rw [early, late, List.take_append_drop]

/- Where the cut can lie -/

theorem findValidCutPoints_from {startIndex endIndex i : Nat} (mem : i ∈ findValidCutPoints entries startIndex endIndex) : startIndex ≤ i := by
  have ranged := List.mem_of_mem_filter mem
  exact (List.mem_range'_1.mp ranged).1

theorem scanBack_between (entries : List SessionEntry) {startIndex i : Nat} (from_start : startIndex ≤ i) :
    startIndex ≤ scanBack entries startIndex i ∧ scanBack entries startIndex i ≤ i := by
  induction i with
  | zero => exact ⟨from_start,Nat.le_refl 0⟩
  | succ i ih =>
    unfold scanBack
    split
    · rename_i back
      have inner := ih (by omega)
      omega
    · omega

theorem findTurnStartIndex_between {entryIndex startIndex turn : Nat}
    (found : findTurnStartIndex entries entryIndex startIndex = some turn) : startIndex ≤ turn ∧ turn ≤ entryIndex := by
  unfold findTurnStartIndex at found
  obtain ⟨offset,here,rfl⟩ := Option.map_eq_some_iff.mp found
  have bound := lastIndex_lt here
  simp only [slice, List.length_drop, List.length_take] at bound
  omega

section Estimates
variable (countTokens : List JsString → Nat)

theorem findCutPoint_firstKept (entries : List SessionEntry) (startIndex endIndex keepRecentTokens : Nat) :
    (findCutPoint countTokens entries startIndex endIndex keepRecentTokens).firstKeptEntryIndex =
      if findValidCutPoints entries startIndex endIndex = [] then startIndex
      else scanBack entries startIndex (budgetCut countTokens entries startIndex endIndex keepRecentTokens) := by
  unfold findCutPoint budgetCut
  cases findValidCutPoints entries startIndex endIndex <;> rfl

theorem findCutPoint_between (entries : List SessionEntry) (startIndex endIndex keepRecentTokens : Nat) :
    startIndex ≤ (findCutPoint countTokens entries startIndex endIndex keepRecentTokens).firstKeptEntryIndex ∧
    ∀ turn, (findCutPoint countTokens entries startIndex endIndex keepRecentTokens).turnStartIndex = some turn →
      startIndex ≤ turn ∧
        turn ≤ (findCutPoint countTokens entries startIndex endIndex keepRecentTokens).firstKeptEntryIndex := by
  unfold findCutPoint
  cases points : findValidCutPoints entries startIndex endIndex with
  | nil => exact ⟨Nat.le_refl startIndex,by simp⟩
  | cons first rest =>
    have from_start : ∀ c ∈ first :: rest, startIndex ≤ c := by
      rw [← points]
      intro c mem
      exact findValidCutPoints_from mem
    let reached := budgetIndex countTokens entries startIndex keepRecentTokens (endIndex - startIndex) 0
    have chosen : startIndex ≤ (reached.bind fun i => (first :: rest).find? fun c => i ≤ c).getD first := by
      cases found : reached.bind fun i => (first :: rest).find? fun c => i ≤ c with
      | none => exact from_start first (by simp)
      | some c =>
        obtain ⟨i,-,here⟩ := Option.bind_eq_some_iff.mp found
        exact from_start c (List.mem_of_find?_eq_some here)
    refine ⟨(scanBack_between entries chosen).1,?_⟩
    intro turn found
    simp only at found
    split at found
    · cases found
    · exact findTurnStartIndex_between found

theorem slice_self (entries : List SessionEntry) (i : Nat) : slice entries i i = [] := by
  simp [slice]

theorem slice_to_end (entries : List SessionEntry) (i : Nat) :
    slice entries i entries.length = entries.drop i := by
  simp [slice]

variable {path : List SessionEntry} {settings : CompactionSettings} {prep : CompactionPreparation}

/-- History and turn prefix together reach from the boundary to the cut. -/
theorem preparationAt_parts {cutPoint : CutPointResult} {firstKeptEntryId : JsString}
    (made : preparationAt path settings cutPoint firstKeptEntryId = some prep)
    (turn_between : ∀ turn, cutPoint.turnStartIndex = some turn →
      boundaryStart path ≤ turn ∧ turn ≤ cutPoint.firstKeptEntryIndex) :
    prep.firstKeptEntryId = firstKeptEntryId ∧
      prep.messagesToSummarize ++ prep.turnPrefixMessages =
        messagesFrom (slice path (boundaryStart path) cutPoint.firstKeptEntryIndex) ∧
      prep.recentMessages = messagesFrom (path.drop cutPoint.firstKeptEntryIndex) := by
  unfold preparationAt at made
  dsimp only at made
  cases split_turn : cutPoint.isSplitTurn with
  | false =>
    simp only [split_turn, Bool.false_eq_true, if_false, Option.getD_none] at made
    split at made
    · cases made
    cases made
    exact ⟨rfl,by simp,by rw [slice_to_end]⟩
  | true =>
    simp only [split_turn, if_true] at made
    split at made
    · cases made
    cases made
    refine ⟨rfl,?_,by rw [slice_to_end]⟩
    cases turn : cutPoint.turnStartIndex with
    | none => simp [slice_self, messagesFrom]
    | some t =>
      obtain ⟨after_start,before_cut⟩ := turn_between t turn
      simp only [Option.getD_some]
      rw [← messagesFrom_append, slice_append after_start before_cut]

/-- The entries since the last compaction fall into those handed over and those kept. -/
theorem prepareCompaction_parts (prepared : prepareCompaction countTokens path settings = some prep) :
    ∃ handed first later, sinceCompaction path = handed ++ first :: later ∧
      first.id = prep.firstKeptEntryId ∧ first.id ≠ [] ∧
      prep.messagesToSummarize ++ prep.turnPrefixMessages = messagesFrom handed ∧
      prep.recentMessages = messagesFrom (first :: later) := by
  unfold prepareCompaction at prepared
  split at prepared
  · cases prepared
  obtain ⟨from_start,turn_between⟩ : boundaryStart path ≤
      (preparedCut countTokens path settings).firstKeptEntryIndex ∧ _ :=
    findCutPoint_between countTokens path (boundaryStart path) path.length _
  dsimp only at prepared
  split at prepared
  · cases prepared
  rename_i firstKept here
  split at prepared
  · cases prepared
  rename_i named
  obtain ⟨first_id,handed,recent⟩ := preparationAt_parts prepared turn_between
  obtain ⟨bound,here⟩ := List.getElem?_eq_some_iff.mp here
  rw [List.drop_eq_getElem_cons bound, here] at recent
  have since : sinceCompaction path = path.drop (boundaryStart path) :=
    (drop_lastIndex SessionEntry.isCompaction path).symm
  refine ⟨_,firstKept,_,?_,first_id.symm,named,handed,recent⟩
  rw [since, ← slice_to_end path (boundaryStart path), ← slice_append from_start (Nat.le_of_lt bound),
    slice_to_end, List.drop_eq_getElem_cons bound, here]

end Estimates

end Session
