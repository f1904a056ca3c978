import OpenAgents.Streams.MarkupHealing
import Mathlib.Tactic.SplitIfs

/- Fixed tokens: what is not a beginning of a token is decided for good. -/
namespace StreamMarkupHealing
open JsText JsJson HeldScanner PrefixMatch

/-- A token that only more text completes is held. -/
theorem matchesToken_append {s token : JsString} {tokens : List JsString} {maxHold : Nat}
    (nonempty : s ≠ []) (known : token ∈ tokens) (short : token.length ≤ maxHold)
    (released : startsWithPartialToken s tokens maxHold = false) (behind : JsString) :
    matchesToken (s ++ behind) token = matchesToken s token := by
  rw [Bool.eq_iff_iff, matchesToken, matchesToken, List.isPrefixOf_iff_prefix, List.isPrefixOf_iff_prefix]
  constructor
  · intro longer
    by_cases inside : token.length ≤ s.length
    · exact List.prefix_of_prefix_length_le longer (List.prefix_append s behind) inside
    · have begins : s <+: token :=
        List.prefix_of_prefix_length_le (List.prefix_append s behind) longer (by omega)
      have partially : startsWithPartialToken s tokens maxHold = true := by
        simp only [startsWithPartialToken, Bool.and_eq_true, Bool.not_eq_true', List.isEmpty_eq_false_iff,
          decide_eq_true_eq, List.any_eq_true]
        exact ⟨⟨nonempty,by omega⟩,token,known,by omega,List.isPrefixOf_iff_prefix.mpr begins⟩
      rw [released] at partially
      cases partially
  · intro shorter
    exact shorter.trans (List.prefix_append s behind)

theorem partialToken_append {s : JsString} {tokens : List JsString} {maxHold : Nat} (nonempty : s ≠ [])
    (released : startsWithPartialToken s tokens maxHold = false) (behind : JsString) :
    startsWithPartialToken (s ++ behind) tokens maxHold = false := by
  rw [Bool.eq_false_iff] at released ⊢
  intro held
  apply released
  simp only [startsWithPartialToken, Bool.and_eq_true, Bool.not_eq_true', List.isEmpty_eq_false_iff,
    decide_eq_true_eq, List.any_eq_true, List.length_append] at held ⊢
  obtain ⟨⟨-,within⟩,token,known,longer,begins⟩ := held
  have start := (List.prefix_append s behind).trans (List.isPrefixOf_iff_prefix.mp begins)
  exact ⟨⟨nonempty,by omega⟩,token,known,by omega,List.isPrefixOf_iff_prefix.mpr start⟩

section Repair
variable (parseJsonWithRepair : JsString → Option Json)

variable {mode : Mode} {s : JsString} {taken : Taken Mode Output}

theorem consumeKimi_append (nonempty : s ≠ []) (decided : consumeKimi parseJsonWithRepair mode s = some taken)
    (behind : JsString) : consumeKimi parseJsonWithRepair mode (s ++ behind) = some taken := by
  cases released : startsWithPartialToken s kimiTokens maxKimiPartialHold with
  | true =>
    unfold consumeKimi at decided
    rw [if_pos released] at decided
    cases decided
  | false =>
    have short : ∀ token ∈ kimiTokens, token.length ≤ maxKimiPartialHold := by decide
    have same : ∀ token ∈ kimiTokens, matchesToken (s ++ behind) token = matchesToken s token :=
      fun token known => matchesToken_append nonempty known (short token known) released behind
    have still := partialToken_append nonempty released behind
    rw [← decided]
    simp only [consumeKimi, released, still, same kimiSectionBegin (by simp [kimiTokens]),
      same kimiSectionEnd (by simp [kimiTokens]), same kimiCallBegin (by simp [kimiTokens]),
      same kimiArgBegin (by simp [kimiTokens]), same kimiCallEnd (by simp [kimiTokens])]
    obtain ⟨ch,rest,rfl⟩ := List.exists_cons_of_ne_nil nonempty
    rfl

/-- A decision takes a token, or one unit; closing tags of thinking are not its business. -/
theorem consumeKimi_size (nonempty : s ≠ []) (decided : consumeKimi parseJsonWithRepair mode s = some taken) :
    (∃ token ∈ kimiTokens, matchesToken s token = true ∧ taken.size = token.length) ∨ taken.size = 1 := by
  obtain ⟨ch,rest,rfl⟩ := List.exists_cons_of_ne_nil nonempty
  unfold consumeKimi at decided
  split_ifs at decided with held opens closes begins outside argument outside ends outside
  · cases decided
    exact .inl ⟨kimiSectionBegin,by simp [kimiTokens],opens,rfl⟩
  · cases decided
    exact .inl ⟨kimiSectionEnd,by simp [kimiTokens],closes,rfl⟩
  · cases decided
    exact .inl ⟨kimiCallBegin,by simp [kimiTokens],begins,rfl⟩
  · cases decided
    exact .inl ⟨kimiCallBegin,by simp [kimiTokens],begins,rfl⟩
  · cases decided
    exact .inl ⟨kimiArgBegin,by simp [kimiTokens],argument,rfl⟩
  · cases decided
    exact .inl ⟨kimiArgBegin,by simp [kimiTokens],argument,rfl⟩
  · cases decided
    exact .inl ⟨kimiCallEnd,by simp [kimiTokens],ends,rfl⟩
  · cases decided
    exact .inl ⟨kimiCallEnd,by simp [kimiTokens],ends,rfl⟩
  all_goals
    cases decided
    exact .inr rfl

theorem token_progress {s token : JsString} (begins : matchesToken s token = true) (positive : 0 < token.length) :
    0 < token.length ∧ token.length ≤ s.length :=
  ⟨positive,(List.isPrefixOf_iff_prefix.mp begins).length_le⟩

theorem consumeKimi_progress : Progress (consumeKimi parseJsonWithRepair) := by
  intro mode s taken nonempty decided
  have positive : ∀ token ∈ kimiTokens, 0 < token.length := by decide
  rcases consumeKimi_size parseJsonWithRepair nonempty decided with ⟨token,known,begins,size⟩ | size
  · rw [size]
    exact token_progress begins (positive token known)
  · rw [size]
    exact ⟨Nat.one_pos,List.length_pos_iff.mpr nonempty⟩

end Repair

/- Thinking -/

def KnownCloseTag (mode : Mode) : Prop := mode.thinkingCloseTag ∈ [[], thinkClose, thinkingClose]

variable {s : JsString} {tag : ThinkingTag} {mode : Mode} {taken : Taken Mode Output}

theorem tryMatchThinkingOpen_some (found : tryMatchThinkingOpen s = some tag) :
    tag ∈ plainThinkingTags ∧ matchesToken s tag.opens = true := by
  unfold tryMatchThinkingOpen at found
  exact ⟨List.mem_of_find?_eq_some found,by simpa using List.find?_some found⟩

/-- What a decision inside and outside of a thinking block takes. -/
theorem consumePlainThinking_cases (decided : consumePlainThinking mode s = some taken) :
    (mode.thinkingCloseTag ≠ [] ∧ matchesToken s mode.thinkingCloseTag = true ∧
      taken = ⟨mode.thinkingCloseTag.length,{ mode with thinkingCloseTag := [] },.flushThinking⟩) ∨
    (mode.thinkingCloseTag ≠ [] ∧ matchesToken s mode.thinkingCloseTag = false ∧
      startsWithPartialToken s [mode.thinkingCloseTag] maxXmlPartialHold = false ∧
      ∃ ch ∈ s.head?, taken = ⟨1,mode,.thinking [ch]⟩) ∨
    (mode.thinkingCloseTag = [] ∧ ∃ tag, tryMatchThinkingOpen s = some tag ∧
      taken = ⟨tag.opens.length,{ mode with thinkingCloseTag := tag.closes },.flushClean⟩) ∨
    (mode.thinkingCloseTag = [] ∧ tryMatchThinkingOpen s = none ∧ startsWithPartialThinkingOpen s = false ∧
      ∃ ch ∈ s.head?, taken = ⟨1,mode,.clean [ch]⟩) := by
  unfold consumePlainThinking at decided
  cases s with
  | nil => cases decided
  | cons ch rest =>
    simp only at decided
    by_cases inside : mode.thinkingCloseTag ≠ []
    · rw [if_pos inside] at decided
      by_cases closes : matchesToken (ch :: rest) mode.thinkingCloseTag = true
      · rw [if_pos closes] at decided
        cases decided
        exact .inl ⟨inside,closes,rfl⟩
      · rw [if_neg closes] at decided
        split at decided
        · cases decided
        · rename_i released
          cases decided
          exact .inr (.inl ⟨inside,Bool.eq_false_iff.mpr closes,Bool.eq_false_iff.mpr released,ch,rfl,rfl⟩)
    · rw [if_neg inside] at decided
      have outside : mode.thinkingCloseTag = [] := not_not.mp inside
      cases found : tryMatchThinkingOpen (ch :: rest) with
      | some tag =>
        rw [found] at decided
        cases decided
        exact .inr (.inr (.inl ⟨outside,tag,rfl,rfl⟩))
      | none =>
        simp only [found] at decided
        split at decided
        · cases decided
        · rename_i released
          cases decided
          exact .inr (.inr (.inr ⟨outside,rfl,Bool.eq_false_iff.mpr released,ch,rfl,rfl⟩))

theorem consumePlainThinking_known (known : KnownCloseTag mode) (decided : consumePlainThinking mode s = some taken) :
    KnownCloseTag taken.mode := by
  rcases consumePlainThinking_cases decided with ⟨-,-,rfl⟩ | ⟨-,-,-,ch,-,rfl⟩ | ⟨-,tag,found,rfl⟩ |
    ⟨-,-,-,ch,-,rfl⟩
  · simp [KnownCloseTag]
  · exact known
  · have closed : ∀ tag ∈ plainThinkingTags, tag.closes ∈ [[], thinkClose, thinkingClose] := by decide
    exact closed tag (tryMatchThinkingOpen_some found).1
  · exact known

theorem consumePlainThinking_progress : Progress consumePlainThinking := by
  intro mode s taken nonempty decided
  have unit : 0 < 1 ∧ 1 ≤ s.length := ⟨Nat.one_pos,List.length_pos_iff.mpr nonempty⟩
  rcases consumePlainThinking_cases decided with ⟨inside,closes,rfl⟩ | ⟨-,-,-,ch,-,rfl⟩ |
    ⟨-,tag,found,rfl⟩ | ⟨-,-,-,ch,-,rfl⟩
  · exact token_progress closes (List.length_pos_iff.mpr inside)
  · exact unit
  · have positive : ∀ tag ∈ plainThinkingTags, 0 < tag.opens.length := by decide
    obtain ⟨known,begins⟩ := tryMatchThinkingOpen_some found
    exact token_progress begins (positive tag known)
  · exact unit

/-- Neither opening tag begins the other, so a tag that was found is found again. -/
theorem tryMatchThinkingOpen_append_some (found : tryMatchThinkingOpen s = some tag) (behind : JsString) :
    tryMatchThinkingOpen (s ++ behind) = some tag := by
  obtain ⟨known,begins⟩ := tryMatchThinkingOpen_some found
  obtain ⟨rest,rfl⟩ := List.isPrefixOf_iff_prefix.mp begins
  simp only [plainThinkingTags, List.mem_cons, List.not_mem_nil, or_false] at known
  rcases known with rfl | rfl
  · rfl
  · rfl

theorem tryMatchThinkingOpen_append_none (nonempty : s ≠ []) (absent : tryMatchThinkingOpen s = none)
    (released : startsWithPartialThinkingOpen s = false) (behind : JsString) :
    tryMatchThinkingOpen (s ++ behind) = none := by
  simp only [tryMatchThinkingOpen, List.find?_eq_none] at absent ⊢
  intro tag known
  have short : ∀ tag ∈ plainThinkingTags, tag.opens.length ≤ maxXmlPartialHold := by decide
  have free := List.any_eq_false.mp released tag known
  have same := matchesToken_append nonempty List.mem_cons_self (short tag known)
    (Bool.eq_false_iff.mpr free) behind
  rw [same]
  exact absent tag known

theorem consumePlainThinking_append (nonempty : s ≠ []) (known : KnownCloseTag mode)
    (decided : consumePlainThinking mode s = some taken) (behind : JsString) :
    consumePlainThinking mode (s ++ behind) = some taken := by
  have short : ∀ token ∈ [[], thinkClose, thinkingClose], token.length ≤ maxXmlPartialHold := by decide
  have outcome := consumePlainThinking_cases decided
  obtain ⟨ch,rest,rfl⟩ := List.exists_cons_of_ne_nil nonempty
  rcases outcome with ⟨inside,closes,rfl⟩ | ⟨inside,closes,released,_,same,rfl⟩ |
    ⟨outside,tag,found,rfl⟩ | ⟨outside,absent,released,_,same,rfl⟩
  · have still : matchesToken (ch :: rest ++ behind) mode.thinkingCloseTag = true := by
      rw [matchesToken, List.isPrefixOf_iff_prefix] at closes ⊢
      exact closes.trans (List.prefix_append _ behind)
    rw [List.cons_append] at still ⊢
    simp only [consumePlainThinking, if_pos inside, if_pos still]
  · have still := matchesToken_append nonempty List.mem_cons_self (short _ known) released behind
    have later := partialToken_append nonempty released behind
    rw [closes] at still
    cases same
    rw [List.cons_append] at still later ⊢
    simp [consumePlainThinking, inside, still, later]
  · have still := tryMatchThinkingOpen_append_some found behind
    rw [List.cons_append] at still ⊢
    simp [consumePlainThinking, outside, still]
  · have still := tryMatchThinkingOpen_append_none nonempty absent released behind
    have later : startsWithPartialThinkingOpen (ch :: rest ++ behind) = false := by
      rw [startsWithPartialThinkingOpen, List.any_eq_false] at released ⊢
      intro tag member
      rw [partialToken_append nonempty (Bool.eq_false_iff.mpr (released tag member)) behind]
      exact Bool.false_ne_true
    cases same
    rw [List.cons_append] at still later ⊢
    simp [consumePlainThinking, outside, still, later]

end StreamMarkupHealing
