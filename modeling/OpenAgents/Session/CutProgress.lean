import OpenAgents.Session.CutPairs

/- How far a cut gets in a range of the entries: it passes every cut point that has the budget
   at or behind it, unless no cut point is left with less. -/
namespace Session
open JsText JsJson Conversation

theorem slice_take {entries : List SessionEntry} {endIndex i : Nat} (inside : endIndex ≤ entries.length) :
    slice (entries.take endIndex) i (entries.take endIndex).length = slice entries i endIndex := by
  simp only [slice, List.length_take, Nat.min_eq_left inside, List.take_take, Nat.min_self]

theorem findValidCutPoints_take {entries : List SessionEntry} {startIndex endIndex : Nat}
    (inside : endIndex ≤ entries.length) :
    findValidCutPoints (entries.take endIndex) startIndex (entries.take endIndex).length =
      findValidCutPoints entries startIndex endIndex := by
  have length : (entries.take endIndex).length = endIndex := by simp [inside]
  rw [length]
  refine List.filter_congr ?_
  intro i mem
  have before : i < endIndex := by
    obtain ⟨from_start,upto⟩ := List.mem_range'_1.mp mem
    omega
  rw [List.getElem?_take_of_lt before]

section Estimates
variable (countTokens : List JsString → Nat)

theorem budgetIndex_take {entries : List SessionEntry} {startIndex endIndex keepRecentTokens : Nat} :
    ∀ steps accumulated, startIndex + steps ≤ endIndex →
      budgetIndex countTokens (entries.take endIndex) startIndex keepRecentTokens steps accumulated =
        budgetIndex countTokens entries startIndex keepRecentTokens steps accumulated := by
  intro steps
  induction steps with
  | zero => exact fun _ _ => rfl
  | succ steps ih =>
    intro accumulated inside
    have here : (entries.take endIndex)[startIndex + steps]? = entries[startIndex + steps]? :=
      List.getElem?_take_of_lt (by omega)
    have earlier := fun accumulated => ih accumulated (by omega)
    simp only [budgetIndex, here, earlier]

/-- The cut of a range is the cut of the entries up to its end. -/
theorem budgetCut_range (entries : List SessionEntry) (startIndex keepRecentTokens : Nat) {endIndex : Nat}
    (inside : endIndex ≤ entries.length) :
    budgetCut countTokens entries startIndex endIndex keepRecentTokens =
      chosenCut countTokens (entries.take endIndex) startIndex keepRecentTokens := by
  have length : (entries.take endIndex).length = endIndex := by simp [inside]
  rw [← budgetCut_chosen]
  unfold budgetCut
  rw [findValidCutPoints_take inside, length]
  cases points : findValidCutPoints entries startIndex endIndex with
  | nil => rfl
  | cons first rest =>
    have start_inside : startIndex ≤ endIndex := by
      have member : first ∈ findValidCutPoints entries startIndex endIndex := by simp [points]
      have ranged := List.mem_range'_1.mp (List.mem_of_mem_filter member)
      omega
    dsimp only
    rw [budgetIndex_take countTokens _ _ (by omega)]

/- Less than the budget stands behind the cut point. -/
def shortAfter (entries : List SessionEntry) (endIndex keepRecentTokens cut : Nat) : Prop :=
  filledAfter countTokens (entries.take endIndex) keepRecentTokens cut = false

theorem filled_of_enough {entries : List SessionEntry} {keepRecentTokens early late : Nat} (order : early < late)
    (enough : keepRecentTokens ≤ messageTokens countTokens (entries.drop late)) (positive : 0 < keepRecentTokens) :
    filledAfter countTokens entries keepRecentTokens early = true := by
  have more : keepRecentTokens ≤ messageTokens countTokens (entries.drop (early + 1)) :=
    Nat.le_trans enough (messageTokens_antitone countTokens entries (Nat.succ_le_of_lt order))
  unfold filledAfter
  rw [Bool.and_eq_true, decide_eq_true_iff]
  refine ⟨?_,more⟩
  by_contra silent
  have none_there : ∀ entry ∈ entries.drop (early + 1), entryTokens countTokens entry = 0 := by
    intro entry mem
    refine entryTokens_other countTokens ?_
    cases message : entry.isMessage with
    | false => rfl
    | true => exact absurd (List.any_eq_true.mpr ⟨entry,mem,message⟩) silent
  have nothing : messageTokens countTokens (entries.drop (early + 1)) = 0 := by
    refine List.sum_eq_zero_iff_forall_eq_nat.mpr ?_
    intro tokens mem
    obtain ⟨entry,there,rfl⟩ := List.mem_map.mp mem
    exact none_there entry there
  omega

/-- The chosen cut lies at or behind every cut point from which on the messages of the range hold the
budget, exactly when of any two cut points some has less behind it and, with no budget at all, the
first of the two has a message behind it. -/
theorem cut_progress_iff (entries : List SessionEntry) (startIndex endIndex keepRecentTokens : Nat)
    (inside : endIndex ≤ entries.length) :
    (∀ cut ∈ findValidCutPoints entries startIndex endIndex,
      keepRecentTokens ≤ messageTokens countTokens (slice entries cut endIndex) →
        cut ≤ budgetCut countTokens entries startIndex endIndex keepRecentTokens) ↔
    ∀ early ∈ findValidCutPoints entries startIndex endIndex,
      ∀ late ∈ findValidCutPoints entries startIndex endIndex, early < late →
        (∃ cut ∈ findValidCutPoints entries startIndex endIndex,
          shortAfter countTokens entries endIndex keepRecentTokens cut) ∧
        (0 < keepRecentTokens ∨ ¬shortAfter countTokens entries endIndex keepRecentTokens early) := by
  rw [budgetCut_range countTokens entries startIndex keepRecentTokens inside]
  simp only [← slice_take inside, ← findValidCutPoints_take inside, shortAfter]
  generalize entries.take endIndex = entries
  simp only [slice_to_end]
  constructor
  · intro progress early early_mem late late_mem order
    by_contra stuck
    rcases not_and_or.mp stuck with none_short | no_budget
    · have filled : ∀ cut ∈ findValidCutPoints entries startIndex entries.length,
          filledAfter countTokens entries keepRecentTokens cut = true := by
        intro cut mem
        by_contra short
        exact none_short ⟨cut,mem,by simpa using short⟩
      have enough : keepRecentTokens ≤ messageTokens countTokens (entries.drop late) := by
        have behind := filled late late_mem
        unfold filledAfter at behind
        rw [Bool.and_eq_true, decide_eq_true_iff] at behind
        exact Nat.le_trans behind.2 (messageTokens_antitone countTokens entries (Nat.le_succ late))
      have reached := progress late late_mem enough
      have upto := chosenCut_filled countTokens early_mem filled
      omega
    · obtain ⟨zero,short⟩ := not_or.mp no_budget
      obtain rfl : keepRecentTokens = 0 := by omega
      have reached := progress late late_mem (Nat.zero_le _)
      have upto := (chosenCut_unfilled countTokens early_mem (not_not.mp short)).2
      omega
  · intro condition cut mem enough
    by_contra behind
    have chosen_mem := chosenCut_mem countTokens keepRecentTokens (List.ne_nil_of_mem mem)
    obtain ⟨⟨short,short_mem,is_short⟩,budget⟩ := condition _ chosen_mem cut mem (Nat.not_le.mp behind)
    have chosen_short := (chosenCut_unfilled countTokens short_mem is_short).1
    rcases budget with positive | not_short
    · have filled := filled_of_enough countTokens (Nat.not_le.mp behind) enough positive
      rw [chosen_short] at filled
      cases filled
    · exact not_short chosen_short

end Estimates

/- The result of a call is longer than the budget, and no cut point follows it. -/
def longResult : List SessionEntry :=
  [userEntry (js "a") none (js "x"), waitingCall,
    ⟨js "c",some (js "b"),0,.message (.toolResult ⟨js "call",js "read",[.text ⟨js "content",none⟩],false,0⟩)⟩]

theorem cut_progress_iff_short :
    1 ∈ findValidCutPoints longResult 0 2 ∧ 4 ≤ messageTokens totalLength (slice longResult 1 2) ∧
      1 ≤ budgetCut totalLength longResult 0 2 4 := by
  have cut : 1 ∈ findValidCutPoints longResult 0 2 := by decide +kernel
  have holds : 4 ≤ messageTokens totalLength (slice longResult 1 2) := by decide +kernel
  refine ⟨cut,holds,(cut_progress_iff totalLength longResult 0 2 4 (by decide)).mpr ?_ 1 cut holds⟩
  intro early _ late _ _
  exact ⟨⟨1,by decide +kernel,by unfold shortAfter; decide +kernel⟩,.inl (by decide)⟩

/-- The call holds the budget with its result, yet everything is kept from the first cut point on. -/
theorem long_result_keeps_all :
    ¬ ∀ (countTokens : List JsString → Nat) (entries : List SessionEntry) (startIndex endIndex keepRecentTokens : Nat),
      endIndex ≤ entries.length → ∀ cut ∈ findValidCutPoints entries startIndex endIndex,
        keepRecentTokens ≤ messageTokens countTokens (slice entries cut endIndex) →
          cut ≤ budgetCut countTokens entries startIndex endIndex keepRecentTokens := by
  intro claim
  have reached := claim totalLength longResult 0 3 3 (by decide) 1 (by decide +kernel) (by decide +kernel)
  exact absurd reached (by decide +kernel)

end Session
