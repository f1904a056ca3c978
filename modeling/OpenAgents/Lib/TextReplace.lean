import Mathlib.Data.List.Infix
import Mathlib.Data.List.Basic

/- Replacing every occurrence of a token in a text by a mark, from left to right, and what two
   texts that cannot share letters are for each other. -/
namespace TextReplace
variable {α : Type} [DecidableEq α]

/- The first place at which the token begins. -/
def firstAt (token : List α) : List α → Option Nat
  | [] => if token.isEmpty then some 0 else none
  | c :: rest => if token.isPrefixOf (c :: rest) then some 0 else (firstAt token rest).map (· + 1)

/- Each round searches behind the mark it has put in. -/
def replaceFuel (token mark : List α) : Nat → List α → List α
  | 0, text => text
  | fuel + 1, text =>
      match firstAt token text with
      | none => text
      | some i => text.take i ++ mark ++ replaceFuel token mark fuel (text.drop (i + token.length))

/- An empty token is replaced nowhere. A text has no more occurrences than letters. -/
def replaceAll (text token mark : List α) : List α :=
  if token.isEmpty then text else replaceFuel token mark (text.length + 1) text

theorem firstAt_some {token text : List α} {i : Nat} (found : firstAt token text = some i) :
    token <+: text.drop i ∧ i + token.length ≤ text.length ∧ ∀ j < i, ¬ token <+: text.drop j := by
  induction text generalizing i with
  | nil =>
    rw [firstAt] at found
    split at found
    · rename_i empty
      cases found
      rw [List.isEmpty_iff] at empty
      rw [empty]
      simp
    · contradiction
  | cons c rest ih =>
    rw [firstAt] at found
    split at found
    · rename_i here
      cases found
      rw [List.isPrefixOf_iff_prefix] at here
      refine ⟨here,?_,fun j less => absurd less (Nat.not_lt_zero j)⟩
      rw [Nat.zero_add]
      exact here.length_le
    · rename_i other
      obtain ⟨k,later,same⟩ := Option.map_eq_some_iff.mp found
      obtain ⟨there,room,least⟩ := ih later
      rw [← same]
      refine ⟨there,?_,?_⟩
      · rw [List.length_cons]
        omega
      · intro j less
        cases j with
        | zero =>
          rw [List.isPrefixOf_iff_prefix] at other
          exact other
        | succ j => exact least j (by omega)

theorem firstAt_none {token text : List α} (missing : firstAt token text = none) (j : Nat) : ¬ token <+: text.drop j := by
  induction text generalizing j with
  | nil =>
    rw [firstAt] at missing
    split at missing
    · contradiction
    · rename_i some'
      intro begins
      rw [List.drop_nil, List.prefix_nil] at begins
      exact some' (List.isEmpty_iff.mpr begins)
  | cons c rest ih =>
    rw [firstAt] at missing
    split at missing
    · contradiction
    · rename_i other
      cases j with
      | zero =>
        rw [List.isPrefixOf_iff_prefix] at other
        exact other
      | succ j => exact ih (Option.map_eq_none_iff.mp missing) j

omit [DecidableEq α] in
theorem infix_iff_drop {token text : List α} : token <:+: text ↔ ∃ j, token <+: text.drop j := by
  constructor
  · intro ⟨before,after,same⟩
    refine ⟨before.length,after,?_⟩
    rw [← same, List.append_assoc, List.drop_left]
  · intro ⟨j,begins⟩
    exact begins.isInfix.trans (List.drop_suffix j text).isInfix

theorem firstAt_none_iff {token text : List α} : firstAt token text = none ↔ ¬ token <:+: text := by
  constructor
  · intro missing occurs
    obtain ⟨j,begins⟩ := infix_iff_drop.mp occurs
    exact firstAt_none missing j begins
  · intro absent
    cases found : firstAt token text with
    | none => rfl
    | some i => exact absurd (infix_iff_drop.mpr ⟨i,(firstAt_some found).1⟩) absent

/-- Before the first occurrence there is none. -/
theorem firstAt_front {token text : List α} {i : Nat} (some' : token ≠ []) (found : firstAt token text = some i) :
    ¬ token <:+: text.take i := by
  intro occurs
  obtain ⟨j,begins⟩ := infix_iff_drop.mp occurs
  obtain ⟨_,room,least⟩ := firstAt_some found
  have size := begins.length_le
  have positive := List.length_pos_iff.mpr some'
  rw [List.length_drop, List.length_take] at size
  apply least j (by omega)
  rw [List.drop_take] at begins
  exact begins.trans (List.take_prefix _ _)

theorem firstAt_unique {token text : List α} {i : Nat} (begins : token <+: text.drop i)
    (least : ∀ j < i, ¬ token <+: text.drop j) : firstAt token text = some i := by
  cases found : firstAt token text with
  | none => exact absurd begins (firstAt_none found i)
  | some k =>
    obtain ⟨there,_,first⟩ := firstAt_some found
    rcases Nat.lt_trichotomy i k with less | same | more
    · exact absurd begins (first i less)
    · rw [same]
    · exact absurd there (least k more)

section replace
variable {token mark : List α} (some' : token ≠ [])
include some'

/-- More fuel than letters is enough. -/
theorem replaceFuel_enough {fuel more : Nat} {text : List α} (enough : text.length < fuel) (others : text.length < more) :
    replaceFuel token mark fuel text = replaceFuel token mark more text := by
  induction fuel generalizing more text with
  | zero => omega
  | succ fuel ih =>
    cases more with
    | zero => omega
    | succ more =>
      rw [replaceFuel, replaceFuel]
      cases found : firstAt token text with
      | none => rfl
      | some i =>
        have room := (firstAt_some found).2.1
        have positive := List.length_pos_iff.mpr some'
        have shorter : (text.drop (i + token.length)).length < text.length := by
          rw [List.length_drop]
          omega
        dsimp only
        rw [ih (by omega) (by omega : (text.drop (i + token.length)).length < more)]

theorem replaceAll_none {text : List α} (missing : firstAt token text = none) : replaceAll text token mark = text := by
  rw [replaceAll, if_neg (by simpa using some'), replaceFuel, missing]

theorem replaceAll_some {text : List α} {i : Nat} (found : firstAt token text = some i) :
    replaceAll text token mark = text.take i ++ mark ++ replaceAll (text.drop (i + token.length)) token mark := by
  have room := (firstAt_some found).2.1
  have positive := List.length_pos_iff.mpr some'
  rw [replaceAll, replaceAll, if_neg (by simpa using some'), if_neg (by simpa using some'), replaceFuel, found]
  dsimp only
  have shorter : (text.drop (i + token.length)).length < text.length := by
    rw [List.length_drop]
    omega
  rw [replaceFuel_enough some' shorter (Nat.lt_succ_self _)]

end replace

/-- The letters of the one are never letters of the other, in whatever text both occur. -/
structure Apart (token mark : List α) : Prop where
  some' : token ≠ []
  notInside : ¬ token <:+: mark
  notAround : ¬ mark <:+: token
  notEnding : ∀ shared, shared ≠ [] → shared <:+ token → ¬ shared <+: mark
  notBeginning : ∀ shared, shared ≠ [] → shared <+: token → ¬ shared <:+ mark

omit [DecidableEq α] in
/-- A token that occurs around a mark occurs before it or behind it. -/
theorem Apart.infix_cases {token mark : List α} (apart : Apart token mark) {before after : List α}
    (occurs : token <:+: before ++ mark ++ after) : token <:+: before ∨ token <:+: after := by
  obtain ⟨j,begins⟩ := infix_iff_drop.mp occurs
  by_cases early : j < before.length
  · have whole : (before ++ mark ++ after).drop j = before.drop j ++ (mark ++ after) := by
      rw [List.append_assoc, List.drop_append_of_le_length (Nat.le_of_lt early)]
    rw [whole] at begins
    rcases Nat.le_total token.length (before.drop j).length with short | long
    · left
      exact infix_iff_drop.mpr ⟨j,List.prefix_of_prefix_length_le begins (List.prefix_append _ _) short⟩
    · -- The token reaches into the mark.
      obtain ⟨shared,is⟩ := List.prefix_of_prefix_length_le (List.prefix_append _ _) begins long
      rw [← is, List.prefix_append_right_inj] at begins
      rcases Nat.le_total shared.length mark.length with few | many
      · have within := List.prefix_of_prefix_length_le begins (List.prefix_append _ _) few
        by_cases none' : shared = []
        · left
          rw [none', List.append_nil] at is
          rw [← is]
          exact (List.drop_suffix j before).isInfix
        · exact absurd within (apart.notEnding shared none' ⟨_,is⟩)
      · have around := List.prefix_of_prefix_length_le (List.prefix_append _ _) begins many
        exfalso
        apply apart.notAround
        rw [← is]
        exact around.isInfix.trans (List.suffix_append _ _).isInfix
  · have whole : (before ++ mark ++ after).drop j = (mark ++ after).drop (j - before.length) := by
      rw [List.append_assoc, List.drop_append, List.drop_eq_nil_of_le (by omega), List.nil_append]
    rw [whole] at begins
    by_cases late : mark.length ≤ j - before.length
    · right
      rw [List.drop_append, List.drop_eq_nil_of_le late, List.nil_append] at begins
      exact infix_iff_drop.mpr ⟨_,begins⟩
    · exfalso
      rw [List.drop_append_of_le_length (by omega)] at begins
      have suffix := List.drop_suffix (j - before.length) mark
      rcases Nat.le_total token.length (mark.drop (j - before.length)).length with short | long
      · exact apart.notInside ((List.prefix_of_prefix_length_le begins (List.prefix_append _ _) short).isInfix.trans suffix.isInfix)
      · have shared := List.prefix_of_prefix_length_le (List.prefix_append _ _) begins long
        refine apart.notBeginning _ ?_ shared suffix
        intro none'
        have size := congrArg List.length none'
        rw [List.length_drop, List.length_nil] at size
        omega

/-- What has been replaced occurs no more. -/
theorem replace_clears {token mark : List α} (apart : Apart token mark) (text : List α) :
    ¬ token <:+: replaceAll text token mark := by
  induction size : text.length using Nat.strong_induction_on generalizing text with
  | _ n ih =>
    cases found : firstAt token text with
    | none =>
      rw [replaceAll_none apart.some' found]
      exact firstAt_none_iff.mp found
    | some i =>
      rw [replaceAll_some apart.some' found]
      intro occurs
      have room := (firstAt_some found).2.1
      have positive := List.length_pos_iff.mpr apart.some'
      rcases apart.infix_cases occurs with early | late
      · exact firstAt_front apart.some' found early
      · exact ih _ (by rw [← size, List.length_drop]; omega) _ rfl late

/-- A text that cannot share letters with the mark does not come up by a replacement. -/
theorem replace_keeps_absent {token mark other : List α} (some' : token ≠ []) (apart : Apart other mark) {text : List α}
    (absent : ¬ other <:+: text) : ¬ other <:+: replaceAll text token mark := by
  induction size : text.length using Nat.strong_induction_on generalizing text with
  | _ n ih =>
    cases found : firstAt token text with
    | none =>
      rw [replaceAll_none some' found]
      exact absent
    | some i =>
      rw [replaceAll_some some' found]
      intro occurs
      have room := (firstAt_some found).2.1
      have positive := List.length_pos_iff.mpr some'
      rcases apart.infix_cases occurs with early | late
      · exact absent (early.trans (List.take_prefix i text).isInfix)
      · refine ih _ (by rw [← size, List.length_drop]; omega) ?_ rfl late
        intro later
        exact absent (later.trans (List.drop_suffix _ text).isInfix)

/-- Two stretches are replaced one after the other when no occurrence takes in letters of both. -/
theorem replace_append {token mark : List α} (some' : token ≠ []) {first second : List α}
    (within : ∀ i < first.length, token <+: (first ++ second).drop i → i + token.length ≤ first.length) :
    replaceAll (first ++ second) token mark = replaceAll first token mark ++ replaceAll second token mark := by
  induction size : first.length using Nat.strong_induction_on generalizing first with
  | _ n ih =>
    have positive := List.length_pos_iff.mpr some'
    cases found : firstAt token first with
    | some i =>
      obtain ⟨begins,room,least⟩ := firstAt_some found
      have inside : ∀ j ≤ first.length, (first ++ second).drop j = first.drop j ++ second := fun j le =>
        List.drop_append_of_le_length le
      have whole : firstAt token (first ++ second) = some i := by
        apply firstAt_unique
        · rw [inside i (by omega)]
          exact begins.trans (List.prefix_append _ _)
        · intro j less early
          have fits := within j (by omega) early
          rw [inside j (by omega)] at early
          exact least j less (List.prefix_of_prefix_length_le early (List.prefix_append _ _) (by rw [List.length_drop]; omega))
      have shorter : (first.drop (i + token.length)).length < n := by
        rw [← size, List.length_drop]
        omega
      have later : ∀ j < (first.drop (i + token.length)).length, token <+: (first.drop (i + token.length) ++ second).drop j →
          j + token.length ≤ (first.drop (i + token.length)).length := by
        intro j less begins'
        rw [← inside _ room, List.drop_drop] at begins'
        rw [List.length_drop] at less ⊢
        have fits := within (i + token.length + j) (by omega) begins'
        omega
      have rest := ih _ shorter later rfl
      rw [replaceAll_some some' whole, replaceAll_some some' found, inside _ room, rest,
        List.take_append_of_le_length (by omega)]
      simp only [List.append_assoc]
    | none =>
      rw [replaceAll_none some' found]
      have front : ∀ j < first.length, ¬ token <+: (first ++ second).drop j := by
        intro j less early
        have fits := within j less early
        rw [List.drop_append_of_le_length (Nat.le_of_lt less)] at early
        exact firstAt_none found j (List.prefix_of_prefix_length_le early (List.prefix_append _ _) (by rw [List.length_drop]; omega))
      have behind : ∀ j, (first ++ second).drop (first.length + j) = second.drop j := by
        intro j
        rw [List.drop_append, List.drop_eq_nil_of_le (by omega), List.nil_append, Nat.add_sub_cancel_left]
      cases later : firstAt token second with
      | none =>
        have whole : firstAt token (first ++ second) = none := by
          rw [firstAt_none_iff, infix_iff_drop]
          intro ⟨j,begins⟩
          by_cases less : j < first.length
          · exact front j less begins
          · obtain ⟨k,rfl⟩ := Nat.exists_eq_add_of_le (Nat.le_of_not_lt less)
            rw [behind] at begins
            exact firstAt_none later k begins
        rw [replaceAll_none some' whole, replaceAll_none some' later]
      | some k =>
        obtain ⟨begins,room,least⟩ := firstAt_some later
        have whole : firstAt token (first ++ second) = some (first.length + k) := by
          apply firstAt_unique
          · rw [behind]
            exact begins
          · intro j less early
            by_cases inside : j < first.length
            · exact front j inside early
            · obtain ⟨l,rfl⟩ := Nat.exists_eq_add_of_le (Nat.le_of_not_lt inside)
              rw [behind] at early
              exact least l (by omega) early
        rw [replaceAll_some some' whole, replaceAll_some some' later, Nat.add_assoc, behind, List.take_append,
          List.take_of_length_le (by omega), Nat.add_sub_cancel_left]
        simp only [List.append_assoc]

end TextReplace
