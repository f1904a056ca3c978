import OpenAgents.Session.CutProgress

/- When a cut reports that it splits a turn.  The scan back moves the cut to a setting in front of
   a turn start, and the turn is then looked for at the setting. -/
namespace Session
open JsText JsJson Conversation LastIndex

def producesMessage (entry : SessionEntry) : Bool := (getMessageFromEntry entry).isSome

/-- The first entry from an index on that produces a message. -/
structure FirstProducing (entries : List SessionEntry) (endIndex low first : Nat) : Prop where
  after : low ≤ first
  before : first < endIndex
  produces : (entries[first]?).any producesMessage = true
  earliest : ∀ i, low ≤ i → i < first → (entries[i]?).any producesMessage = false

structure LatestTurn (entries : List SessionEntry) (startIndex high turn : Nat) : Prop where
  after : startIndex ≤ turn
  before : turn < high
  starts : (entries[turn]?).any startsTurn = true
  latest : ∀ i, turn < i → i < high → (entries[i]?).any startsTurn = false

/- The first message kept does not start a turn, and `turn` is the latest start before it. -/
def Splits (entries : List SessionEntry) (startIndex endIndex firstKeptEntryIndex turn : Nat) : Prop :=
  ∃ first, FirstProducing entries endIndex firstKeptEntryIndex first ∧
    (entries[first]?).any startsTurn = false ∧ LatestTurn entries startIndex first turn

structure SplitSound (entries : List SessionEntry) (startIndex endIndex : Nat) (cut : CutPointResult) : Prop where
  split : cut.isSplitTurn = true ↔ ∃ turn, Splits entries startIndex endIndex cut.firstKeptEntryIndex turn
  turn : cut.isSplitTurn = true → ∀ turn, Splits entries startIndex endIndex cut.firstKeptEntryIndex turn →
    cut.turnStartIndex = some turn

def isSetting (entry : SessionEntry) : Bool := !entry.isCompaction && !entry.isMessage

/- Where the settings directly in front of a cut point begin. -/
def runStart (entries : List SessionEntry) (startIndex cut : Nat) : Nat :=
  cut - ((slice entries startIndex cut).rtakeWhile isSetting).length

/- Entries -/

theorem startsTurn_point {entry : SessionEntry} (starts : startsTurn entry = true) : isCutPoint entry = true := by
  unfold startsTurn at starts
  unfold isCutPoint
  split at starts <;> simp_all

theorem point_produces {entry : SessionEntry} (point : isCutPoint entry = true) : producesMessage entry = true := by
  unfold isCutPoint at point
  unfold producesMessage getMessageFromEntry
  split at point <;> simp_all

theorem user_starts {entry : SessionEntry} (user : isUserEntry entry = true) : startsTurn entry = true := by
  unfold isUserEntry at user
  unfold startsTurn
  split at user
  · simp_all
  · cases user

theorem any_imp {p q : SessionEntry → Bool} (implied : ∀ entry, p entry = true → q entry = true)
    {entry : Option SessionEntry} (holds : entry.any p = true) : entry.any q = true := by
  cases entry with
  | none => cases holds
  | some entry => exact implied entry holds

theorem slice_getElem? (entries : List SessionEntry) (low high i : Nat) :
    (slice entries low high)[i]? = if low + i < high then entries[low + i]? else none := by
  rw [slice, List.getElem?_drop, List.getElem?_take]

variable {entries : List SessionEntry}

/- The turn search and the scan back -/

theorem findTurnStartIndex_latest {entryIndex startIndex turn : Nat}
    (found : findTurnStartIndex entries entryIndex startIndex = some turn) :
    LatestTurn entries startIndex (entryIndex + 1) turn := by
  have between := findTurnStartIndex_between found
  unfold findTurnStartIndex at found
  obtain ⟨offset,here,rfl⟩ := Option.map_eq_some_iff.mp found
  obtain ⟨starts,later⟩ := lastIndex_hit here
  refine ⟨between.1,by omega,?_,?_⟩
  · rw [slice_getElem?, if_pos (by omega)] at starts
    exact starts
  · intro i behind before
    have stays := later (i - startIndex) (by omega)
    rw [slice_getElem?, if_pos (by omega), Nat.add_sub_cancel' (by omega)] at stays
    exact stays

theorem findTurnStartIndex_none {entryIndex startIndex : Nat}
    (missing : findTurnStartIndex entries entryIndex startIndex = none) :
    ∀ i, startIndex ≤ i → i ≤ entryIndex → (entries[i]?).any startsTurn = false := by
  unfold findTurnStartIndex at missing
  have none_there := lastIndex_none_iff.mp (Option.map_eq_none_iff.mp missing)
  intro i after upto
  cases there : entries[i]? with
  | none => rfl
  | some entry =>
    refine none_there entry (List.mem_of_getElem? (i := i - startIndex) ?_)
    rw [slice_getElem?, if_pos (by omega), Nat.add_sub_cancel' after, there]

theorem LatestTurn.unique {startIndex high one two : Nat} (left : LatestTurn entries startIndex high one)
    (right : LatestTurn entries startIndex high two) : one = two := by
  rcases Nat.lt_trichotomy one two with less | same | more
  · have absent := left.latest two less right.before
    rw [right.starts] at absent
    cases absent
  · exact same
  · have absent := right.latest one more left.before
    rw [left.starts] at absent
    cases absent

theorem scanBack_run {startIndex cut : Nat} (from_start : startIndex ≤ cut) (inside : cut ≤ entries.length) : scanBack entries startIndex cut = runStart entries startIndex cut := by
  induction cut with
  | zero => simp [scanBack, runStart]
  | succ i ih =>
    unfold scanBack
    rcases Nat.lt_or_ge startIndex (i + 1) with before | at_start
    · have here : entries[i]? = some entries[i] := List.getElem?_eq_getElem inside
      have grown : slice entries startIndex (i + 1) = slice entries startIndex i ++ [entries[i]] := by
        rw [slice, slice, List.take_succ_eq_append_getElem inside, List.drop_append_of_le_length]
        simp only [List.length_take]
        omega
      have short : ((slice entries startIndex i).rtakeWhile isSetting).length ≤ i := by
        have part := (List.rtakeWhile_suffix isSetting (slice entries startIndex i)).length_le
        have size : (slice entries startIndex i).length ≤ i := by
          simp only [slice, List.length_drop, List.length_take]
          omega
        omega
      unfold runStart
      rw [grown, List.rtakeWhile_concat, here, Option.any_some]
      change (if startIndex < i + 1 ∧ isSetting entries[i] = true then _ else _) = _
      by_cases setting : isSetting entries[i] = true
      · rw [if_pos ⟨before,setting⟩, if_pos setting, ih (by omega) (by omega)]
        unfold runStart
        rw [List.length_append, List.length_singleton]
        omega
      · rw [if_neg (fun both => setting both.2), if_neg setting]
        rfl
    · have empty : slice entries startIndex (i + 1) = [] := by
        refine List.drop_eq_nil_of_le ?_
        simp only [List.length_take]
        omega
      rw [if_neg (fun both => Nat.not_lt.mpr at_start both.1)]
      simp [runStart, empty]

theorem firstProducing_exists {endIndex low point : Nat} (after : low ≤ point) (before : point < endIndex)
    (produces : (entries[point]?).any producesMessage = true) : ∃ first, FirstProducing entries endIndex low first := by
  have some_point : ∃ i, low ≤ i ∧ (entries[i]?).any producesMessage = true := ⟨point,after,produces⟩
  have least := Nat.find_spec some_point
  refine ⟨Nat.find some_point,least.1,?_,least.2,?_⟩
  · exact Nat.lt_of_le_of_lt (Nat.find_min' some_point ⟨after,produces⟩) before
  · intro i low_le earlier
    have stays := Nat.find_min some_point earlier
    by_contra other
    exact stays ⟨low_le,by simpa using other⟩

theorem FirstProducing.unique {endIndex low one two : Nat} (left : FirstProducing entries endIndex low one)
    (right : FirstProducing entries endIndex low two) : one = two := by
  rcases Nat.lt_trichotomy one two with less | same | more
  · have silent := right.earliest one left.after less
    rw [left.produces] at silent
    cases silent
  · exact same
  · have silent := left.earliest two right.after more
    rw [right.produces] at silent
    cases silent

section Estimates
variable (countTokens : List JsString → Nat)

/-- The first message kept with the settings in front of the cut point starts no turn; or it is a
    user message behind no setting; or no turn starts up to where the settings begin. -/
def TurnSeen (entries : List SessionEntry) (startIndex endIndex keepRecentTokens : Nat) : Prop :=
  findValidCutPoints entries startIndex endIndex = [] ∨
    ∃ low, low = runStart entries startIndex
        (chosenCut countTokens (entries.take endIndex) startIndex keepRecentTokens) ∧
      ∀ first, FirstProducing entries endIndex low first → (entries[first]?).any startsTurn = true →
        (entries[low]?).any isUserEntry = true ∨
          ∀ i, startIndex ≤ i → i ≤ low → (entries[i]?).any startsTurn = false

section search
variable {entries : List SessionEntry} {startIndex endIndex low first : Nat}

theorem splits_iff (kept : FirstProducing entries endIndex low first) (turn : Nat) :
    Splits entries startIndex endIndex low turn ↔
      (entries[first]?).any startsTurn = false ∧ LatestTurn entries startIndex first turn := by
  constructor
  · rintro ⟨other,kept',none_there,latest⟩
    obtain rfl := kept'.unique kept
    exact ⟨none_there,latest⟩
  · intro both
    exact ⟨first,kept,both.1,both.2⟩

/-- Between the moved cut and the first message kept no turn starts. -/
theorem silent_between (kept : FirstProducing entries endIndex low first) {i : Nat} (after : low ≤ i) (before : i < first) :
    (entries[i]?).any startsTurn = false := by
  by_contra other
  have silent := kept.earliest i after before
  rw [any_imp (fun _ h => point_produces (startsTurn_point h)) (by simpa using other)] at silent
  cases silent

/-- The latest turn up to the moved cut is the latest in front of the first message kept, if that starts none. -/
theorem latest_reaches (kept : FirstProducing entries endIndex low first) {turn : Nat}
    (latest : LatestTurn entries startIndex (low + 1) turn) (quiet : (entries[first]?).any startsTurn = false) :
    LatestTurn entries startIndex first turn := by
  refine ⟨latest.after,?_,latest.starts,?_⟩
  · rcases Nat.lt_or_ge turn first with before | upto
    · exact before
    · have same : turn = first := by
        have := latest.before
        have := kept.after
        omega
      rw [← same, latest.starts] at quiet
      cases quiet
  · intro i behind before
    rcases Nat.lt_or_ge low i with later | upto
    · exact silent_between kept (Nat.le_of_lt later) before
    · exact latest.latest i behind (Nat.lt_succ_of_le upto)

end search

/-- What the search from the moved cut says, against what stands first behind it. -/
theorem search_sound_iff {entries : List SessionEntry} {startIndex endIndex low first : Nat}
    (kept : FirstProducing entries endIndex low first) :
    SplitSound entries startIndex endIndex
      ⟨low,if (entries[low]?).any isUserEntry then none else findTurnStartIndex entries low startIndex,
        !(entries[low]?).any isUserEntry && (if (entries[low]?).any isUserEntry then none
          else findTurnStartIndex entries low startIndex).isSome⟩ ↔
    ((entries[first]?).any startsTurn = true → (entries[low]?).any isUserEntry = true ∨
      ∀ i, startIndex ≤ i → i ≤ low → (entries[i]?).any startsTurn = false) := by
  have only := @splits_iff entries startIndex endIndex low first kept
  cases user : (entries[low]?).any isUserEntry with
  | true =>
    have starts := any_imp (fun _ => user_starts) user
    have same : first = low := by
      refine kept.unique ⟨Nat.le_refl low,Nat.lt_of_le_of_lt kept.after kept.before,?_,by omega⟩
      exact any_imp (fun _ h => point_produces (startsTurn_point h)) starts
    constructor
    · intro _ _
      exact .inl rfl
    · intro _
      refine ⟨?_,by simp⟩
      simp only [only, same, starts]
      simp
  | false =>
    simp only [Bool.false_eq_true, if_false, Bool.not_false, Bool.true_and, false_or]
    cases found : findTurnStartIndex entries low startIndex with
    | none =>
      have none_before := findTurnStartIndex_none found
      constructor
      · intro _ _
        exact none_before
      · intro _
        refine ⟨?_,by simp⟩
        simp only [Option.isSome_none, Bool.false_eq_true, false_iff]
        rintro ⟨turn,splits⟩
        obtain ⟨quiet,latest⟩ := (only turn).mp splits
        rcases Nat.lt_or_ge low turn with behind | upto
        · have silent := silent_between kept (Nat.le_of_lt behind) latest.before
          rw [latest.starts] at silent
          cases silent
        · have absent := none_before turn latest.after upto
          rw [latest.starts] at absent
          cases absent
    | some turn =>
      have latest := findTurnStartIndex_latest found
      constructor
      · intro sound starts
        obtain ⟨other,splits⟩ := sound.split.mp rfl
        have quiet := ((only other).mp splits).1
        rw [starts] at quiet
        cases quiet
      · intro condition
        have quiet : (entries[first]?).any startsTurn = false := by
          by_contra other
          have absent := condition (by simpa using other) turn latest.after (Nat.le_of_lt_succ latest.before)
          rw [latest.starts] at absent
          cases absent
        have reaches := latest_reaches kept latest quiet
        constructor
        · simp only [Option.isSome_some, true_iff]
          exact ⟨turn,(only turn).mpr ⟨quiet,reaches⟩⟩
        · intro _ other splits
          rw [reaches.unique ((only other).mp splits).2]

/-- The split is reported as claimed exactly when the scan back hides no turn start. -/
theorem split_turn_iff (entries : List SessionEntry) (startIndex endIndex keepRecentTokens : Nat)
    (inside : endIndex ≤ entries.length) :
    SplitSound entries startIndex endIndex
        (findCutPoint countTokens entries startIndex endIndex keepRecentTokens) ↔
      TurnSeen countTokens entries startIndex endIndex keepRecentTokens := by
  unfold TurnSeen
  by_cases none_there : findValidCutPoints entries startIndex endIndex = []
  · have unsplit : findCutPoint countTokens entries startIndex endIndex keepRecentTokens = ⟨startIndex,none,false⟩ := by
      unfold findCutPoint
      rw [none_there]
    rw [unsplit]
    refine iff_of_true ⟨?_,by simp⟩ (.inl none_there)
    simp only [Bool.false_eq_true, false_iff]
    rintro ⟨turn,first,kept,-,latest⟩
    have member : turn ∈ findValidCutPoints entries startIndex endIndex := by
      refine List.mem_filter.mpr ⟨List.mem_range'_1.mpr ?_,any_imp (fun _ => startsTurn_point) latest.starts⟩
      have := latest.after
      have := latest.before
      have := kept.before
      omega
    rw [none_there] at member
    cases member
  · have range := budgetCut_range countTokens entries startIndex keepRecentTokens inside
    have member : budgetCut countTokens entries startIndex endIndex keepRecentTokens ∈
        findValidCutPoints entries startIndex endIndex := by
      rw [range, ← findValidCutPoints_take inside]
      refine chosenCut_mem countTokens keepRecentTokens ?_
      rwa [findValidCutPoints_take inside]
    generalize chosen : budgetCut countTokens entries startIndex endIndex keepRecentTokens = cut at member range
    rw [← range]
    obtain ⟨ranged,point⟩ := List.mem_filter.mp member
    obtain ⟨from_start,upto⟩ := List.mem_range'_1.mp ranged
    have before : cut < endIndex := by omega
    have between := scanBack_between entries from_start
    rw [scanBack_run from_start (by omega)] at between
    obtain ⟨first,kept⟩ := firstProducing_exists between.2 before (any_imp (fun _ => point_produces) point)
    have moved : findCutPoint countTokens entries startIndex endIndex keepRecentTokens =
        ⟨runStart entries startIndex cut,
          if (entries[runStart entries startIndex cut]?).any isUserEntry then none
          else findTurnStartIndex entries (runStart entries startIndex cut) startIndex,
          !(entries[runStart entries startIndex cut]?).any isUserEntry &&
            (if (entries[runStart entries startIndex cut]?).any isUserEntry then none
            else findTurnStartIndex entries (runStart entries startIndex cut) startIndex).isSome⟩ := by
      rw [← scanBack_run from_start (by omega), ← chosen]
      unfold findCutPoint budgetCut
      cases points : findValidCutPoints entries startIndex endIndex with
      | nil => exact absurd points none_there
      | cons first rest => rfl
    rw [moved, search_sound_iff kept]
    constructor
    · intro condition
      refine .inr ⟨_,rfl,?_⟩
      intro other kept' starts
      rw [kept'.unique kept] at starts
      exact condition starts
    · rintro (empty | ⟨low,rfl,condition⟩)
      · exact absurd empty none_there
      · exact condition first kept

end Estimates

/- The model changes in front of the second message of the user. -/
def changeBetween : List SessionEntry :=
  [userEntry (js "a") none (js "x"), waitingCall, ⟨js "c",some (js "b"),0,.modelChange (js "m") none⟩,
    userEntry (js "d") (some (js "c")) (js "y")]

theorem split_turn_iff_call : SplitSound changeBetween 0 2 (findCutPoint totalLength changeBetween 0 2 1) := by
  refine (split_turn_iff totalLength changeBetween 0 2 1 (by decide)).mpr (.inr ⟨1,by decide +kernel,?_⟩)
  intro first kept starts
  obtain rfl : first = 1 := by
    have := kept.after
    have := kept.before
    omega
  exact absurd starts (by decide)

theorem split_before_user : ¬ ∀ (countTokens : List JsString → Nat) (entries : List SessionEntry)
    (startIndex endIndex keepRecentTokens : Nat), endIndex ≤ entries.length →
      SplitSound entries startIndex endIndex
        (findCutPoint countTokens entries startIndex endIndex keepRecentTokens) := by
  intro claim
  have sound := claim totalLength changeBetween 0 4 1 (by decide)
  have shape : findCutPoint totalLength changeBetween 0 4 1 = ⟨2,some 0,true⟩ := by decide +kernel
  rw [shape] at sound
  obtain ⟨turn,first,kept,quiet,-⟩ := sound.split.mp rfl
  obtain rfl : first = 3 := by
    have after : 2 ≤ first := kept.after
    have before : first < 4 := kept.before
    rcases Nat.lt_or_ge first 3 with two | three
    · obtain rfl : first = 2 := by omega
      exact absurd kept.produces (by decide)
    · omega
  exact absurd quiet (by decide)

end Session
