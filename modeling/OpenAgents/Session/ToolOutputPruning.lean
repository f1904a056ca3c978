import OpenAgents.Session.CompactionLoss

/- Pruning of old tool outputs: everything old enough and unprotected goes as soon as the whole saves
   enough, and a second run finds nothing. -/
namespace ToolPruning
open JsText JsJson Conversation OrderedMap Session

structure PruneConfig where
  protectTokens : Int
  minimumSavings : Int
  protectedTools : List ProtectedToolMatcher

structure PruneResult where
  prunedCount : Nat
  tokensSaved : Nat
  deriving DecidableEq, Repr

def defaultPruneConfig : PruneConfig :=
  ⟨40000,20000,[.tool (js "skill"), .predicate isSkillReadToolResult]⟩

def createPrunedNotice (tokens : Nat) : JsString := js "[Output truncated - " ++ decimal tokens ++ js " tokens]"

/- A quarter of the length, rounded up. -/
def noticeTokens (tokens : Nat) : Nat := ((createPrunedNotice tokens).length + 3) / 4

def estimatePrunedSavings (tokens : Nat) : Nat := tokens - noticeTokens tokens

section Estimates
variable (countTokens : List JsString → Nat) (config : PruneConfig) (calls : OMap JsString ToolCall)

/-- The walk from the end: the tokens met, and the tokens of each entry that is a candidate. -/
structure Walk where
  accumulatedTokens : Nat
  candidates : List (Option Nat)

def walkEntry (e : StampedEntry) (walk : Walk) : Walk :=
  match getToolResultMessage e.entry with
  | none => { walk with candidates := none :: walk.candidates }
  | some message =>
      let tokens := estimateTokens countTokens (.toolResult message)
      let isProtected := isProtectedToolResult message (get? calls message.toolCallId) config.protectedTools
      let stays := e.prunedAt.isSome || decide ((walk.accumulatedTokens : Int) < config.protectTokens) || isProtected
      ⟨walk.accumulatedTokens + tokens,(if stays then none else some tokens) :: walk.candidates⟩

def walkEntries (entries : List StampedEntry) : Walk := entries.foldr (walkEntry countTokens config calls) ⟨0,[]⟩

def replaceCandidate (now : Int) (e : StampedEntry) : Option Nat → StampedEntry
  | none => e
  | some tokens => e.replaceResult (createPrunedNotice tokens) now

def candidateSavings (candidates : List (Option Nat)) : Nat :=
  ((candidates.filterMap id).map estimatePrunedSavings).sum

def pruneToolOutputs (now : Int) (entries : List StampedEntry) : List StampedEntry × PruneResult :=
  let toolCallsById := collectToolCallsById (entries.map StampedEntry.entry)
  let candidates := (walkEntries countTokens config toolCallsById entries).candidates
  let tokensSaved := candidateSavings candidates
  let prunedCount := (candidates.filterMap id).length
  if (tokensSaved : Int) < config.minimumSavings ∨ prunedCount = 0 then (entries, ⟨0,0⟩)
  else (List.zipWith (replaceCandidate now) entries candidates, ⟨prunedCount,tokensSaved⟩)

/- What the walk finds -/

def resultTokens (e : StampedEntry) : Nat :=
  ((getToolResultMessage e.entry).map fun message => estimateTokens countTokens (.toolResult message)).getD 0

/- The tool results behind an entry hold less than the protected tokens. -/
def recent (later : List StampedEntry) : Bool :=
  decide (((later.map (resultTokens countTokens)).sum : Int) < config.protectTokens)

def resultProtected (e : StampedEntry) : Bool :=
  (getToolResultMessage e.entry).any fun message =>
    isProtectedToolResult message (get? calls message.toolCallId) config.protectedTools

/- A tool result, not pruned before, neither recent nor protected. -/
def eligible (e : StampedEntry) (later : List StampedEntry) : Bool :=
  (getToolResultMessage e.entry).isSome && e.prunedAt.isNone && !recent countTokens config later &&
    !resultProtected config calls e

def eligibleTokens (entries : List StampedEntry) : List (Option Nat) :=
  entries.mapIdx fun i e =>
    if eligible countTokens config calls e (entries.drop (i + 1)) then some (resultTokens countTokens e) else none

theorem eligibleTokens_cons (e : StampedEntry) (later : List StampedEntry) :
    eligibleTokens countTokens config calls (e :: later) =
      (if eligible countTokens config calls e later then some (resultTokens countTokens e) else none) ::
        eligibleTokens countTokens config calls later := by
  simp only [eligibleTokens, List.mapIdx_cons, List.drop_succ_cons, List.drop_zero]

theorem walkEntries_spec (entries : List StampedEntry) :
    walkEntries countTokens config calls entries =
      ⟨(entries.map (resultTokens countTokens)).sum,eligibleTokens countTokens config calls entries⟩ := by
  induction entries with
  | nil => rfl
  | cons e later ih =>
    have walked : walkEntries countTokens config calls (e :: later) =
        walkEntry countTokens config calls e (walkEntries countTokens config calls later) := rfl
    rw [walked, ih, eligibleTokens_cons, List.map_cons, List.sum_cons, Nat.add_comm]
    unfold walkEntry eligible resultProtected recent
    cases result : getToolResultMessage e.entry with
    | none => simp [resultTokens, result]
    | some message =>
      have tokens : resultTokens countTokens e = estimateTokens countTokens (.toolResult message) := by
        simp [resultTokens, result]
      rw [tokens]
      simp only [Option.isSome_some, Option.any_some, Bool.true_and]
      generalize decide (((later.map (resultTokens countTokens)).sum : Int) < config.protectTokens) = inWindow
      generalize isProtectedToolResult message (get? calls message.toolCallId) config.protectedTools = shielded
      cases e.prunedAt <;> cases inWindow <;> cases shielded <;> simp

/- The entries after a run in which everything eligible goes. -/
def replaced (now : Int) (entries : List StampedEntry) : List StampedEntry :=
  List.zipWith (replaceCandidate now) entries (eligibleTokens countTokens config calls entries)

theorem replaced_cons (now : Int) (e : StampedEntry) (later : List StampedEntry) :
    replaced countTokens config calls now (e :: later) =
      (if eligible countTokens config calls e later then
        e.replaceResult (createPrunedNotice (resultTokens countTokens e)) now else e) ::
        replaced countTokens config calls now later := by
  unfold replaced
  rw [eligibleTokens_cons, List.zipWith_cons_cons]
  split <;> rfl

theorem replaced_stamped {e : StampedEntry} (isResult : (getToolResultMessage e.entry).isSome = true)
    (text : JsString) (now : Int) : (e.replaceResult text now).prunedAt = some now := by
  unfold getToolResultMessage at isResult
  unfold StampedEntry.replaceResult
  split at isResult
  · rfl
  · cases isResult

theorem recent_cons {e : StampedEntry} {later : List StampedEntry}
    (window : recent countTokens config (e :: later) = true) : recent countTokens config later = true := by
  unfold recent at window ⊢
  rw [List.map_cons, List.sum_cons, decide_eq_true_iff] at window
  rw [decide_eq_true_iff]
  omega

/-- Within the window nothing is replaced. -/
theorem replaced_recent (now : Int) (entries : List StampedEntry)
    (window : recent countTokens config entries = true) : replaced countTokens config calls now entries = entries := by
  induction entries with
  | nil => rfl
  | cons e later ih =>
    have inside := recent_cons countTokens config window
    rw [replaced_cons, ih inside]
    have stays : eligible countTokens config calls e later = false := by simp [eligible, inside]
    simp [stays]

/-- What is replaced is stamped, and what is not keeps its reason to stay. -/
theorem replaced_settled (now : Int) (entries : List StampedEntry) :
    ∀ tokens ∈ eligibleTokens countTokens config calls (replaced countTokens config calls now entries),
      tokens = none := by
  induction entries with
  | nil => simp [replaced, eligibleTokens]
  | cons e later ih =>
    rw [replaced_cons, eligibleTokens_cons]
    intro tokens mem
    rcases List.mem_cons.mp mem with rfl | among
    · refine if_neg ?_
      rw [Bool.not_eq_true]
      cases candidate : eligible countTokens config calls e later with
      | true =>
        unfold eligible at candidate
        simp only [Bool.and_eq_true] at candidate
        simp [eligible, replaced_stamped candidate.1.1.1]
      | false =>
        simp only [Bool.false_eq_true, if_false]
        by_cases window : recent countTokens config later = true
        · rw [replaced_recent countTokens config calls now later window]
          exact candidate
        · unfold eligible at candidate ⊢
          rw [Bool.not_eq_true] at window
          rw [window] at candidate
          simp only [Bool.not_false, Bool.and_true] at candidate
          rw [Bool.and_assoc, Bool.and_comm (!recent _ _ _), ← Bool.and_assoc, candidate, Bool.false_and]
    · exact ih tokens among

theorem filterMap_none {tokens : List (Option Nat)} (none_there : ∀ t ∈ tokens, t = none) : tokens.filterMap id = [] := by
  rw [List.filterMap_eq_nil_iff]
  exact none_there

theorem replaced_calls (now : Int) (entries : List StampedEntry) :
    ((replaced countTokens config calls now entries).map StampedEntry.entry).flatMap entryToolCalls =
      (entries.map StampedEntry.entry).flatMap entryToolCalls := by
  induction entries with
  | nil => rfl
  | cons e later ih =>
    rw [replaced_cons, List.map_cons, List.map_cons, List.flatMap_cons, List.flatMap_cons, ih]
    congr 1
    split
    · exact replaceResult_calls e _ now
    · rfl

def callsOf (entries : List StampedEntry) : OMap JsString ToolCall :=
  collectToolCallsById (entries.map StampedEntry.entry)

/- The candidates save too little, or there are none. -/
def tooLittle (entries : List StampedEntry) : Prop :=
  (candidateSavings (eligibleTokens countTokens config (callsOf entries) entries) : Int) < config.minimumSavings ∨
    (eligibleTokens countTokens config (callsOf entries) entries).filterMap id = []

instance (entries : List StampedEntry) : Decidable (tooLittle countTokens config entries) :=
  inferInstanceAs (Decidable (_ ∨ _))

theorem callsOf_replaced (now : Int) (entries : List StampedEntry) :
    callsOf (replaced countTokens config calls now entries) = callsOf entries := by
  unfold callsOf collectToolCallsById
  rw [replaced_calls]

theorem pruneToolOutputs_eq (now : Int) (entries : List StampedEntry) :
    pruneToolOutputs countTokens config now entries =
      if tooLittle countTokens config entries then (entries, ⟨0,0⟩)
      else (replaced countTokens config (callsOf entries) now entries,
        ⟨((eligibleTokens countTokens config (callsOf entries) entries).filterMap id).length,
          candidateSavings (eligibleTokens countTokens config (callsOf entries) entries)⟩) := by
  unfold pruneToolOutputs tooLittle replaced
  dsimp only
  rw [show collectToolCallsById (entries.map StampedEntry.entry) = callsOf entries from rfl, walkEntries_spec]
  exact if_congr (or_congr_right List.length_eq_zero_iff) rfl rfl

theorem replaced_mapIdx (now : Int) (entries : List StampedEntry) :
    replaced countTokens config calls now entries = entries.mapIdx fun i e =>
      if eligible countTokens config calls e (entries.drop (i + 1)) then
        e.replaceResult (createPrunedNotice (resultTokens countTokens e)) now else e := by
  induction entries with
  | nil => rfl
  | cons e later ih =>
    rw [replaced_cons, ih, List.mapIdx_cons]
    rfl

theorem savings_positive (tokens : Nat) : estimatePrunedSavings tokens =
    if noticeTokens tokens < tokens then tokens - noticeTokens tokens else 0 := by
  unfold estimatePrunedSavings
  split
  · rfl
  · omega

/-- When the candidates save too little nothing changes.  Otherwise each of them, and no other entry, is replaced by
its notice, the savings reported are those of the candidates whose notice is shorter, and a second run changes
nothing. -/
theorem tool_outputs_pruned (now now' : Int) (entries : List StampedEntry) :
    (tooLittle countTokens config entries →
      pruneToolOutputs countTokens config now entries = (entries, ⟨0,0⟩)) ∧
    (¬tooLittle countTokens config entries → pruneToolOutputs countTokens config now entries =
      (entries.mapIdx fun i e =>
          if eligible countTokens config (callsOf entries) e (entries.drop (i + 1)) then
            e.replaceResult (createPrunedNotice (resultTokens countTokens e)) now else e,
        ⟨((eligibleTokens countTokens config (callsOf entries) entries).filterMap id).length,
          (((eligibleTokens countTokens config (callsOf entries) entries).filterMap id).map
            fun tokens => if noticeTokens tokens < tokens then tokens - noticeTokens tokens else 0).sum⟩)) ∧
    pruneToolOutputs countTokens config now' (pruneToolOutputs countTokens config now entries).1 =
      ((pruneToolOutputs countTokens config now entries).1, ⟨0,0⟩) := by
  refine ⟨?_,?_,?_⟩
  · intro little
    rw [pruneToolOutputs_eq, if_pos little]
  · intro enough
    rw [pruneToolOutputs_eq, if_neg enough, replaced_mapIdx, candidateSavings]
    simp only [← savings_positive]
  · rw [pruneToolOutputs_eq countTokens config now]
    by_cases little : tooLittle countTokens config entries
    · rw [if_pos little, pruneToolOutputs_eq, if_pos little]
    · rw [if_neg little, pruneToolOutputs_eq]
      refine if_pos (.inr ?_)
      rw [callsOf_replaced]
      exact filterMap_none (replaced_settled countTokens config (callsOf entries) now entries)

end Estimates

/- A result of one token, old and unprotected. -/
def shortResult : StampedEntry :=
  ⟨⟨js "a",none,0,.message (.toolResult ⟨js "call",js "bash",[.text ⟨js "x",none⟩],false,0⟩)⟩,none⟩

/-- The notice of the result is longer than the result. -/
theorem short_result_replaced : ¬∀ (countTokens : List JsString → Nat) (config : PruneConfig) (now : Int)
    (entries : List StampedEntry) (i : Nat) (e : StampedEntry), entries[i]? = some e →
      (pruneToolOutputs countTokens config now entries).1[i]? ≠ some e →
        noticeTokens (resultTokens countTokens e) < resultTokens countTokens e := by
  intro claim
  have shorter := claim totalLength ⟨0,0,[]⟩ 0 [shortResult] 0 shortResult rfl (by decide +kernel)
  exact absurd shorter (by decide +kernel)

end ToolPruning
