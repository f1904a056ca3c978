import OpenAgents.Session.CompactionLoss
import Mathlib.Tactic.IntervalCases

/- When a cut leaves a tool result behind its call.  The cut lies at the first cut point whose
   later messages stay below the budget, whatever calls wait for a result there. -/
namespace Session
open JsText Conversation

/- Calls and results -/

def callsTool (entry : SessionEntry) (id : JsString) : Bool :=
  match entry.body with
  | .message (.assistant message _) => message.toolCalls.any (·.id == id)
  | _ => false

def resultFor (entry : SessionEntry) : Option JsString :=
  match entry.body with
  | .message (.toolResult message) => some message.toolCallId
  | _ => none

/- The entry at `result` answers a tool call of the assistant entry at `call`. -/
def Answers (entries : List SessionEntry) (call result : Nat) : Prop :=
  call < result ∧ ∃ id ∈ (entries[result]?).bind resultFor, (entries[call]?).any (callsTool · id) = true

theorem Answers.call_point {entries : List SessionEntry} {call result : Nat} (answers : Answers entries call result) :
    (entries[call]?).any isCutPoint = true ∧ (entries[call]?).any SessionEntry.isMessage = true := by
  obtain ⟨-,id,-,calls⟩ := answers
  cases found : entries[call]? with
  | none => simp [found] at calls
  | some entry =>
    rw [found, Option.any_some] at calls
    unfold callsTool at calls
    split at calls
    · rename_i message usage body
      simp [isCutPoint, SessionEntry.isMessage, body]
    · cases calls

theorem Answers.result_point {entries : List SessionEntry} {call result : Nat} (answers : Answers entries call result) :
    (entries[result]?).any isCutPoint = false ∧ (entries[result]?).any SessionEntry.isMessage = true := by
  obtain ⟨-,id,results,-⟩ := answers
  obtain ⟨entry,found,answered⟩ := Option.bind_eq_some_iff.mp results
  rw [found, Option.any_some, Option.any_some]
  unfold resultFor at answered
  split at answered
  · rename_i message body
    simp [isCutPoint, SessionEntry.isMessage, body]
  · cases answered

section Estimates
variable (countTokens : List JsString → Nat)

/- Only raw messages count. -/
def entryTokens (entry : SessionEntry) : Nat :=
  match entry.body with
  | .message message => estimateTokens countTokens message
  | _ => 0

def messageTokens (entries : List SessionEntry) : Nat := (entries.map (entryTokens countTokens)).sum

/- The messages behind the index fill the budget. -/
def filledAfter (entries : List SessionEntry) (keepRecentTokens index : Nat) : Bool :=
  (entries.drop (index + 1)).any SessionEntry.isMessage &&
    decide (keepRecentTokens ≤ messageTokens countTokens (entries.drop (index + 1)))

/-- The cut can part a call from its result at a cut point between them, if the messages behind
    the call fill the budget and those behind the cut point do not; and where an earlier
    compaction has parted them already, if the kept entries reach back to the result. -/
structure KeepsPairs (entries : List SessionEntry) (startIndex keepRecentTokens : Nat) : Prop where
  within : ∀ call result, Answers entries call result → startIndex ≤ call →
    ∀ cut ∈ findValidCutPoints entries startIndex entries.length, call < cut → cut < result →
      filledAfter countTokens entries keepRecentTokens call = true →
        filledAfter countTokens entries keepRecentTokens cut = true
  across : ∀ call result, Answers entries call result → call < startIndex → startIndex ≤ result →
    findValidCutPoints entries startIndex entries.length ≠ [] ∧
    ∀ cut ∈ findValidCutPoints entries startIndex entries.length, cut < result →
      filledAfter countTokens entries keepRecentTokens cut = true ∧
        ∃ later ∈ findValidCutPoints entries startIndex entries.length,
          filledAfter countTokens entries keepRecentTokens later = false

/- The walk backwards -/

theorem entryTokens_other {entry : SessionEntry} (other : entry.isMessage = false) :
    entryTokens countTokens entry = 0 := by
  unfold entryTokens
  split
  · rename_i message body
    simp [SessionEntry.isMessage, body] at other
  · rfl

variable {entries : List SessionEntry} {early late : Nat}

theorem messageTokens_drop {index : Nat} {entry : SessionEntry} (found : entries[index]? = some entry) :
    messageTokens countTokens (entries.drop index) =
      entryTokens countTokens entry + messageTokens countTokens (entries.drop (index + 1)) := by
  obtain ⟨inside,rfl⟩ := List.getElem?_eq_some_iff.mp found
  rw [List.drop_eq_getElem_cons inside, messageTokens, List.map_cons, List.sum_cons, messageTokens]

theorem messageTokens_antitone (entries : List SessionEntry) (order : early ≤ late) :
    messageTokens countTokens (entries.drop late) ≤ messageTokens countTokens (entries.drop early) := by
  obtain ⟨gap,rfl⟩ := Nat.exists_eq_add_of_le order
  have parts := List.take_append_drop gap (entries.drop early)
  rw [List.drop_drop] at parts
  rw [← parts]
  unfold messageTokens
  rw [List.map_append, List.sum_append]
  exact Nat.le_add_left _ _

/- A message from which on the messages fill the budget. -/
def Fills (entries : List SessionEntry) (keepRecentTokens index : Nat) : Prop :=
  (entries[index]?).any SessionEntry.isMessage = true ∧
    keepRecentTokens ≤ messageTokens countTokens (entries.drop index)

theorem filledAfter_iff {keepRecentTokens index : Nat} :
    filledAfter countTokens entries keepRecentTokens index = true ↔
      ∃ later, index < later ∧ Fills countTokens entries keepRecentTokens later := by
  unfold filledAfter
  rw [Bool.and_eq_true, decide_eq_true_iff]
  constructor
  · intro both
    obtain ⟨some_message,enough⟩ := both
    induction steps : entries.length - (index + 1) generalizing index with
    | zero =>
      have empty : entries.drop (index + 1) = [] := List.drop_eq_nil_of_le (by omega)
      rw [empty] at some_message
      cases some_message
    | succ steps ih =>
      have inside : index + 1 < entries.length := by omega
      have here : entries[index + 1]? = some entries[index + 1] := List.getElem?_eq_getElem inside
      cases message : entries[index + 1].isMessage with
      | true => exact ⟨index + 1,by omega,by simp [here, message],enough⟩
      | false =>
        rw [messageTokens_drop countTokens here, entryTokens_other countTokens message, Nat.zero_add] at enough
        rw [List.drop_eq_getElem_cons inside, List.any_cons, message, Bool.false_or] at some_message
        obtain ⟨later,behind,fills⟩ := ih some_message enough (by omega)
        exact ⟨later,by omega,fills⟩
  · intro witness
    obtain ⟨later,behind,message,enough⟩ := witness
    refine ⟨?_,Nat.le_trans enough (messageTokens_antitone countTokens entries behind)⟩
    cases found : entries[later]? with
    | none => simp [found] at message
    | some entry =>
      rw [found, Option.any_some] at message
      refine List.any_eq_true.mpr ⟨entry,?_,message⟩
      have shifted : (entries.drop (index + 1))[later - (index + 1)]? = some entry := by
        rw [List.getElem?_drop, Nat.add_sub_cancel' behind, found]
      exact List.mem_of_getElem? shifted

theorem filledAfter_antitone {keepRecentTokens early late : Nat} (order : early ≤ late)
    (filled : filledAfter countTokens entries keepRecentTokens late = true) :
    filledAfter countTokens entries keepRecentTokens early = true := by
  rw [filledAfter_iff] at filled ⊢
  obtain ⟨later,behind,fills⟩ := filled
  exact ⟨later,Nat.lt_of_le_of_lt order behind,fills⟩

theorem budgetIndex_step {startIndex steps : Nat} {entry : SessionEntry} (here : entries[startIndex + steps]? = some entry)
    (keepRecentTokens accumulated : Nat) :
    budgetIndex countTokens entries startIndex keepRecentTokens (steps + 1) accumulated =
      if entry.isMessage = true ∧ keepRecentTokens ≤ accumulated + entryTokens countTokens entry then
        some (startIndex + steps)
      else budgetIndex countTokens entries startIndex keepRecentTokens steps
        (accumulated + entryTokens countTokens entry) := by
  rw [budgetIndex, here, Option.map_some]
  obtain ⟨id,parentId,timestamp,body⟩ := entry
  cases body with
  | message message => simp [SessionEntry.isMessage, entryTokens]
  | _ => simp [SessionEntry.isMessage, entryTokens]

/- Where the walk down to `low` stops: at the last message that fills the budget. -/
def StopsAt (entries : List SessionEntry) (keepRecentTokens low high : Nat) : Option Nat → Prop
  | some i => Fills countTokens entries keepRecentTokens i ∧
      ∀ j, i < j → j < high → ¬Fills countTokens entries keepRecentTokens j
  | none => ∀ j, low ≤ j → j < high → ¬Fills countTokens entries keepRecentTokens j

theorem StopsAt.widen {keepRecentTokens low high : Nat} {stop : Option Nat}
    (stops : StopsAt countTokens entries keepRecentTokens low high stop)
    (stays : ¬Fills countTokens entries keepRecentTokens high) :
    StopsAt countTokens entries keepRecentTokens low (high + 1) stop := by
  cases stop with
  | none =>
    intro j above before
    rcases Nat.lt_or_eq_of_le (Nat.le_of_lt_succ before) with earlier | rfl
    · exact stops j above earlier
    · exact stays
  | some i =>
    refine ⟨stops.1,?_⟩
    intro j behind before
    rcases Nat.lt_or_eq_of_le (Nat.le_of_lt_succ before) with earlier | rfl
    · exact stops.2 j behind earlier
    · exact stays

theorem budgetIndex_stops (entries : List SessionEntry) (startIndex keepRecentTokens : Nat) :
    ∀ steps accumulated, startIndex + steps ≤ entries.length →
      accumulated = messageTokens countTokens (entries.drop (startIndex + steps)) →
      StopsAt countTokens entries keepRecentTokens startIndex (startIndex + steps)
        (budgetIndex countTokens entries startIndex keepRecentTokens steps accumulated) := by
  intro steps
  induction steps with
  | zero =>
    intro accumulated _ _ j above before
    omega
  | succ steps ih =>
    intro accumulated inside counted
    have here : entries[startIndex + steps]? = some entries[startIndex + steps] :=
      List.getElem?_eq_getElem (by omega)
    have dropped := messageTokens_drop countTokens here
    rw [Nat.add_assoc startIndex steps 1, ← counted, Nat.add_comm (entryTokens _ _)] at dropped
    rw [budgetIndex_step countTokens here, ← dropped]
    split
    · rename_i stop
      refine ⟨⟨by rw [here, Option.any_some, stop.1],stop.2⟩,?_⟩
      intro j behind before
      omega
    · rename_i on
      have stays : ¬Fills countTokens entries keepRecentTokens (startIndex + steps) := by
        intro fills
        have message := fills.1
        rw [here, Option.any_some] at message
        exact on ⟨message,fills.2⟩
      exact (ih _ (by omega) rfl).widen countTokens stays

/- Cut points -/

theorem mem_findValidCutPoints {startIndex i : Nat} :
    i ∈ findValidCutPoints entries startIndex entries.length ↔
      startIndex ≤ i ∧ (entries[i]?).any isCutPoint = true := by
  unfold findValidCutPoints
  rw [List.mem_filter, List.mem_range'_1]
  constructor
  · intro both
    exact ⟨both.1.1,both.2⟩
  · intro both
    obtain ⟨after_start,point⟩ := both
    refine ⟨⟨after_start,?_⟩,point⟩
    by_contra past
    have outside : entries[i]? = none := List.getElem?_eq_none (by omega)
    simp [outside] at point

theorem findValidCutPoints_sorted (entries : List SessionEntry) (startIndex endIndex : Nat) :
    (findValidCutPoints entries startIndex endIndex).Pairwise (· < ·) :=
  List.Pairwise.filter _ List.pairwise_lt_range'

/- The first cut point behind which the messages stay below the budget. -/
def chosenCut (entries : List SessionEntry) (startIndex keepRecentTokens : Nat) : Nat :=
  let cutPoints := findValidCutPoints entries startIndex entries.length
  (cutPoints.find? fun cut => !filledAfter countTokens entries keepRecentTokens cut).getD
    (cutPoints.head?.getD startIndex)

theorem budgetCut_chosen (entries : List SessionEntry) (startIndex keepRecentTokens : Nat) :
    budgetCut countTokens entries startIndex entries.length keepRecentTokens =
      chosenCut countTokens entries startIndex keepRecentTokens := by
  unfold budgetCut chosenCut
  cases points : findValidCutPoints entries startIndex entries.length with
  | nil => rfl
  | cons first rest =>
    dsimp only
    have startInside : startIndex ≤ entries.length := by
      have member : first ∈ findValidCutPoints entries startIndex entries.length := by simp [points]
      obtain ⟨after_start,point⟩ := mem_findValidCutPoints.mp member
      by_contra past
      have outside : entries[first]? = none := List.getElem?_eq_none (by omega)
      simp [outside] at point
    have stops := budgetIndex_stops countTokens entries startIndex keepRecentTokens
      (entries.length - startIndex) 0 (by omega) (by
        rw [Nat.add_sub_cancel' startInside, List.drop_length]
        rfl)
    rw [Nat.add_sub_cancel' startInside] at stops
    have never : ∀ j, entries.length ≤ j → ¬Fills countTokens entries keepRecentTokens j := by
      rintro j past ⟨message,-⟩
      simp [List.getElem?_eq_none past] at message
    cases reached : budgetIndex countTokens entries startIndex keepRecentTokens (entries.length - startIndex) 0 with
    | none =>
      rw [reached] at stops
      have unfilled : filledAfter countTokens entries keepRecentTokens first = false := by
        rw [Bool.eq_false_iff]
        intro filled
        obtain ⟨later,behind,fills⟩ := (filledAfter_iff countTokens).mp filled
        have member : first ∈ findValidCutPoints entries startIndex entries.length := by simp [points]
        have after_start := (mem_findValidCutPoints.mp member).1
        rcases Nat.lt_or_ge later entries.length with inside | past
        · exact stops later (by omega) inside fills
        · exact never later past fills
      simp [unfilled]
    | some i =>
      rw [reached] at stops
      have same : ∀ cut, decide (i ≤ cut) = !filledAfter countTokens entries keepRecentTokens cut := by
        intro cut
        cases filled : filledAfter countTokens entries keepRecentTokens cut with
        | true =>
          obtain ⟨later,behind,fills⟩ := (filledAfter_iff countTokens).mp filled
          have upto : later ≤ i := by
            by_contra above
            rcases Nat.lt_or_ge later entries.length with inside | past
            · exact stops.2 later (by omega) inside fills
            · exact never later past fills
          simpa using Nat.lt_of_lt_of_le behind upto
        | false =>
          have upto : i ≤ cut := by
            by_contra above
            have filled' : filledAfter countTokens entries keepRecentTokens cut = true :=
              (filledAfter_iff countTokens).mpr ⟨i,by omega,stops.1⟩
            rw [filled] at filled'
            cases filled'
          simpa using upto
      simp only [Option.bind_some, same, List.head?_cons, Option.getD_some]

theorem findCutPoint_chosen (entries : List SessionEntry) (startIndex keepRecentTokens : Nat) :
    (findCutPoint countTokens entries startIndex entries.length keepRecentTokens).firstKeptEntryIndex =
      if findValidCutPoints entries startIndex entries.length = [] then startIndex
      else scanBack entries startIndex (chosenCut countTokens entries startIndex keepRecentTokens) := by
  rw [findCutPoint_firstKept, budgetCut_chosen]

/-- The scan back passes no message. -/
theorem scanBack_passes {startIndex index : Nat} (message : (entries[index]?).any SessionEntry.isMessage = true) :
    ∀ cut, index < scanBack entries startIndex cut ↔ index < cut := by
  intro cut
  induction cut with
  | zero => simp [scanBack]
  | succ cut ih =>
    unfold scanBack
    split
    · rename_i back
      rw [ih]
      have differs : index ≠ cut := by
        rintro rfl
        cases found : entries[index]? with
        | none => simp [found] at message
        | some entry =>
          rw [found, Option.any_some] at message
          simp [found, message] at back
      omega
    · rfl

theorem chosenCut_mem {startIndex : Nat} (keepRecentTokens : Nat)
    (some_points : findValidCutPoints entries startIndex entries.length ≠ []) :
    chosenCut countTokens entries startIndex keepRecentTokens ∈
      findValidCutPoints entries startIndex entries.length := by
  unfold chosenCut
  cases points : findValidCutPoints entries startIndex entries.length with
  | nil => exact absurd points some_points
  | cons first rest =>
    dsimp only
    cases found : (first :: rest).find? fun cut => !filledAfter countTokens entries keepRecentTokens cut with
    | none => simp
    | some cut => exact List.mem_of_find?_eq_some found

/-- Where some cut point has too little behind it, the chosen one is the first of these. -/
theorem chosenCut_unfilled {startIndex keepRecentTokens cut : Nat}
    (member : cut ∈ findValidCutPoints entries startIndex entries.length)
    (unfilled : filledAfter countTokens entries keepRecentTokens cut = false) :
    filledAfter countTokens entries keepRecentTokens (chosenCut countTokens entries startIndex keepRecentTokens) =
        false ∧
      chosenCut countTokens entries startIndex keepRecentTokens ≤ cut := by
  unfold chosenCut
  dsimp only
  cases found : (findValidCutPoints entries startIndex entries.length).find?
      fun cut => !filledAfter countTokens entries keepRecentTokens cut with
  | none =>
    have all := List.find?_eq_none.mp found cut member
    simp [unfilled] at all
  | some chosen =>
    obtain ⟨chosenUnfilled,front,back,split_points,earlier⟩ := List.find?_eq_some_iff_append.mp found
    have sorted := findValidCutPoints_sorted entries startIndex entries.length
    rw [split_points] at sorted member
    rw [Option.getD_some]
    refine ⟨by simpa using chosenUnfilled,?_⟩
    rcases List.mem_append.mp member with before | after
    · have filled := earlier cut before
      simp [unfilled] at filled
    · cases after with
      | head => exact Nat.le_refl _
      | tail _ behind =>
        have order := List.rel_of_pairwise_cons (List.pairwise_append.mp sorted).2.1 behind
        exact Nat.le_of_lt order

/-- Where none has, it is the first of all. -/
theorem chosenCut_filled {startIndex keepRecentTokens cut : Nat}
    (member : cut ∈ findValidCutPoints entries startIndex entries.length)
    (filled : ∀ later ∈ findValidCutPoints entries startIndex entries.length,
      filledAfter countTokens entries keepRecentTokens later = true) :
    chosenCut countTokens entries startIndex keepRecentTokens ≤ cut := by
  have none_short : (findValidCutPoints entries startIndex entries.length).find?
      (fun cut => !filledAfter countTokens entries keepRecentTokens cut) = none := by
    refine List.find?_eq_none.mpr ?_
    intro later among
    simp [filled later among]
  have sorted := findValidCutPoints_sorted entries startIndex entries.length
  unfold chosenCut
  dsimp only
  rw [none_short, Option.getD_none]
  cases points : findValidCutPoints entries startIndex entries.length with
  | nil => simp [points] at member
  | cons first rest =>
    rw [points] at member sorted
    cases member with
    | head => simp
    | tail _ behind => exact Nat.le_of_lt (List.rel_of_pairwise_cons sorted behind)

/- Pairs -/

theorem within_parted_iff {startIndex keepRecentTokens call result : Nat} (answers : Answers entries call result)
    (inside : startIndex ≤ call) :
    (call < chosenCut countTokens entries startIndex keepRecentTokens ∧
        chosenCut countTokens entries startIndex keepRecentTokens ≤ result) ↔
      ∃ cut ∈ findValidCutPoints entries startIndex entries.length, call < cut ∧ cut < result ∧
        filledAfter countTokens entries keepRecentTokens call = true ∧
        filledAfter countTokens entries keepRecentTokens cut = false := by
  have callMember : call ∈ findValidCutPoints entries startIndex entries.length :=
    mem_findValidCutPoints.mpr ⟨inside,answers.call_point.1⟩
  have chosenMember := chosenCut_mem countTokens keepRecentTokens (List.ne_nil_of_mem callMember)
  constructor
  · intro parted
    obtain ⟨after_call,upto⟩ := parted
    have differs : chosenCut countTokens entries startIndex keepRecentTokens ≠ result := by
      intro same
      have point := (mem_findValidCutPoints.mp chosenMember).2
      rw [same, answers.result_point.1] at point
      cases point
    have callFilled : filledAfter countTokens entries keepRecentTokens call = true := by
      cases filled : filledAfter countTokens entries keepRecentTokens call with
      | true => rfl
      | false =>
        have before := (chosenCut_unfilled countTokens callMember filled).2
        omega
    refine ⟨_,chosenMember,after_call,by omega,callFilled,?_⟩
    by_contra chosenFilled
    have all : ∀ later ∈ findValidCutPoints entries startIndex entries.length,
        filledAfter countTokens entries keepRecentTokens later = true := by
      intro later among
      cases filled : filledAfter countTokens entries keepRecentTokens later with
      | true => rfl
      | false => exact absurd (chosenCut_unfilled countTokens among filled).1 chosenFilled
    have before := chosenCut_filled countTokens callMember all
    omega
  · intro parting
    obtain ⟨cut,member,after_call,before,callFilled,unfilled⟩ := parting
    obtain ⟨chosenUnfilled,upto⟩ := chosenCut_unfilled countTokens member unfilled
    refine ⟨?_,by omega⟩
    by_contra early
    have chosenFilled := filledAfter_antitone countTokens (Nat.not_lt.mp early) callFilled
    rw [chosenUnfilled] at chosenFilled
    cases chosenFilled

theorem across_kept_iff {startIndex keepRecentTokens call result : Nat} (answers : Answers entries call result)
    (some_points : findValidCutPoints entries startIndex entries.length ≠ []) :
    result < chosenCut countTokens entries startIndex keepRecentTokens ↔
      ∀ cut ∈ findValidCutPoints entries startIndex entries.length, cut < result →
        filledAfter countTokens entries keepRecentTokens cut = true ∧
          ∃ later ∈ findValidCutPoints entries startIndex entries.length,
            filledAfter countTokens entries keepRecentTokens later = false := by
  have chosenMember := chosenCut_mem countTokens keepRecentTokens some_points
  constructor
  · intro behind cut member before
    have filled : filledAfter countTokens entries keepRecentTokens cut = true := by
      cases filled : filledAfter countTokens entries keepRecentTokens cut with
      | true => rfl
      | false =>
        have upto := (chosenCut_unfilled countTokens member filled).2
        omega
    refine ⟨filled,?_⟩
    by_contra none_short
    have all : ∀ later ∈ findValidCutPoints entries startIndex entries.length,
        filledAfter countTokens entries keepRecentTokens later = true := by
      intro later among
      cases here : filledAfter countTokens entries keepRecentTokens later with
      | true => rfl
      | false => exact absurd ⟨later,among,here⟩ none_short
    have upto := chosenCut_filled countTokens member all
    omega
  · intro all
    by_contra early
    have differs : chosenCut countTokens entries startIndex keepRecentTokens ≠ result := by
      intro same
      have point := (mem_findValidCutPoints.mp chosenMember).2
      rw [same, answers.result_point.1] at point
      cases point
    obtain ⟨filled,later,among,unfilled⟩ := all _ chosenMember (by omega)
    rw [(chosenCut_unfilled countTokens among unfilled).1] at filled
    cases filled

/-- No kept result answers a call that is cut off. -/
theorem cut_keeps_pairs_iff (entries : List SessionEntry) (startIndex keepRecentTokens : Nat) :
    (∀ call result, Answers entries call result →
      (findCutPoint countTokens entries startIndex entries.length keepRecentTokens).firstKeptEntryIndex ≤ result →
      (findCutPoint countTokens entries startIndex entries.length keepRecentTokens).firstKeptEntryIndex ≤ call) ↔
      KeepsPairs countTokens entries startIndex keepRecentTokens := by
  rw [findCutPoint_chosen]
  have moved : ∀ index cut, (entries[index]?).any SessionEntry.isMessage = true →
      (scanBack entries startIndex cut ≤ index ↔ cut ≤ index) := by
    intro index cut message
    rw [← Nat.not_lt, ← Nat.not_lt, scanBack_passes message]
  constructor
  · intro kept
    constructor
    · intro call result answers inside cut member after_call before filled
      have some_points := List.ne_nil_of_mem member
      have pair := kept call result answers
      rw [if_neg some_points, moved call _ answers.call_point.2, moved result _ answers.result_point.2] at pair
      by_contra unfilled
      rw [Bool.not_eq_true] at unfilled
      obtain ⟨after,upto⟩ := (within_parted_iff countTokens answers inside).mpr
        ⟨cut,member,after_call,before,filled,unfilled⟩
      have back := pair upto
      omega
    · intro call result answers outside behind
      have pair := kept call result answers
      have some_points : findValidCutPoints entries startIndex entries.length ≠ [] := by
        intro empty
        rw [if_pos empty] at pair
        have back := pair behind
        omega
      rw [if_neg some_points, moved call _ answers.call_point.2, moved result _ answers.result_point.2] at pair
      refine ⟨some_points,(across_kept_iff countTokens answers some_points).mp ?_⟩
      by_contra early
      have back := pair (Nat.not_lt.mp early)
      have above := findValidCutPoints_from (chosenCut_mem countTokens keepRecentTokens some_points)
      omega
  · intro keeps call result answers
    rcases Nat.lt_or_ge call startIndex with outside | inside
    · rcases Nat.lt_or_ge result startIndex with early | behind
      · have above := (findCutPoint_between countTokens entries startIndex entries.length keepRecentTokens).1
        rw [findCutPoint_chosen] at above
        intro upto
        have order := Nat.le_trans above upto
        omega
      · obtain ⟨some_points,filled⟩ := keeps.across call result answers outside behind
        have late := (across_kept_iff countTokens answers some_points).mpr filled
        rw [if_neg some_points, moved result _ answers.result_point.2]
        omega
    · have member : call ∈ findValidCutPoints entries startIndex entries.length :=
        mem_findValidCutPoints.mpr ⟨inside,answers.call_point.1⟩
      rw [if_neg (List.ne_nil_of_mem member), moved call _ answers.call_point.2,
        moved result _ answers.result_point.2]
      intro upto
      by_contra parted
      obtain ⟨cut,among,after_call,before,filled,unfilled⟩ :=
        (within_parted_iff countTokens answers inside).mp ⟨Nat.not_le.mp parted,upto⟩
      have also := keeps.within call result answers inside cut among after_call before filled
      rw [unfilled] at also
      cases also

end Estimates

/- A command of the user's stands between a call and its result. -/
def waitingCall : SessionEntry :=
  ⟨js "b",some (js "a"),0,.message (.assistant
    ⟨[.toolCall ⟨js "call",js "read",.obj [],none,none,none⟩],js "api",js "provider",js "model",.toolUse,0⟩
    none)⟩

def bashBetween : List SessionEntry :=
  [userEntry (js "a") none (js "x"), waitingCall,
    ⟨js "c",some (js "b"),0,.message (.bashExecution ⟨js "ls",js "out",0⟩)⟩,
    ⟨js "d",some (js "c"),0,.message (.toolResult ⟨js "call",js "read",[],false,0⟩)⟩]

theorem cut_parts_pair :
    (∀ result entry, bashBetween[result]? = some entry → (resultFor entry).isSome = true →
      ∃ call, Answers bashBetween call result) ∧
    ∃ call result, Answers bashBetween call result ∧
      call < (findCutPoint totalLength bashBetween 0 bashBetween.length 3).firstKeptEntryIndex ∧
      (findCutPoint totalLength bashBetween 0 bashBetween.length 3).firstKeptEntryIndex ≤ result := by
  have answers : Answers bashBetween 1 3 := ⟨by decide,js "call",by decide,by decide⟩
  constructor
  · intro result entry found isResult
    have only : result = 3 := by
      obtain ⟨inside,rfl⟩ := List.getElem?_eq_some_iff.mp found
      have length : bashBetween.length = 4 := rfl
      rw [length] at inside
      interval_cases result
      · cases isResult
      · cases isResult
      · cases isResult
      · rfl
    rw [only]
    exact ⟨1,answers⟩
  · exact ⟨1,3,answers,by decide +kernel,by decide +kernel⟩

end Session
