import Mathlib.Data.List.Infix
import Mathlib.Data.List.TakeWhile

/- Matching at the front of a text. A matcher that spells its words gives the same
   answer however the text goes on behind the word. -/
namespace PrefixMatch
variable {U V W : Type}

/- What was captured, and the text behind the match. -/
abbrev Matcher (U V : Type) := List U → Option (V × List U)

def one (accepts : U → Bool) : Matcher U U
  | [] => none
  | u :: rest => if accepts u then some (u, rest) else none

def literal [DecidableEq U] (token : List U) : Matcher U Unit :=
  fun s => if token <+: s then some ((), s.drop token.length) else none

/- A run of accepted units up to the token, which starts with one that is not accepted. -/
def spanned [DecidableEq U] (accepts : U → Bool) (token : List U) : Matcher U (List U) :=
  fun s => (literal token (s.dropWhile accepts)).map fun found => (s.takeWhile accepts, found.2)

def seq (f : Matcher U V) (g : V → Matcher U W) : Matcher U W :=
  fun s => (f s).bind fun found => g found.1 found.2

def choice (f g : Matcher U V) : Matcher U V := fun s => (f s).or (g s)

def accepting (f : Matcher U V) (keep : V → Bool) : Matcher U V :=
  fun s => (f s).filter fun found => keep found.1

def mapTo (f : Matcher U V) (g : V → W) : Matcher U W :=
  fun s => (f s).map fun found => (g found.1, found.2)

def Spells (f : Matcher U V) (words : V → List U → Prop) : Prop :=
  ∀ s v rest, f s = some (v, rest) ↔ ∃ word, words v word ∧ s = word ++ rest

theorem one_spells (accepts : U → Bool) :
    Spells (one accepts) fun u word => accepts u = true ∧ word = [u] := by
  intro s u rest
  cases s with
  | nil => simp [one]
  | cons first others =>
    rw [one]
    split
    · rename_i accepted
      constructor
      · intro found
        cases found
        exact ⟨[u],⟨accepted,rfl⟩,rfl⟩
      · rintro ⟨_,⟨_,rfl⟩,same⟩
        cases same
        rfl
    · rename_i refused
      constructor
      · intro found
        cases found
      · rintro ⟨_,⟨accepted,rfl⟩,same⟩
        cases same
        exact absurd accepted refused

theorem literal_spells [DecidableEq U] (token : List U) :
    Spells (literal token) fun _ word => word = token := by
  intro s u rest
  rw [literal]
  split
  · rename_i here
    obtain ⟨behind,rfl⟩ := here
    simp [eq_comm]
  · rename_i absent
    constructor
    · intro found
      cases found
    · rintro ⟨_,rfl,rfl⟩
      exact absurd (List.prefix_append _ _) absent

variable {accepts : U → Bool} {f : Matcher U V} {words more : V → List U → Prop} {s rest : List U} {v : V}

theorem spanned_spells [DecidableEq U] {first : U} {others : List U} (stops : accepts first = false) :
    Spells (spanned accepts (first :: others)) fun body word =>
      (∀ u ∈ body, accepts u = true) ∧ word = body ++ first :: others := by
  intro s body rest
  constructor
  · intro found
    rw [spanned, Option.map_eq_some_iff] at found
    obtain ⟨⟨_,behind⟩,token,same⟩ := found
    cases same
    obtain ⟨_,rfl,dropped⟩ := (literal_spells (first :: others) _ _ _).mp token
    refine ⟨_,⟨fun u mem => List.mem_takeWhile_imp mem,rfl⟩,?_⟩
    rw [List.append_assoc, ← dropped, List.takeWhile_append_dropWhile]
  · rintro ⟨_,⟨accepted,rfl⟩,rfl⟩
    have dropped : (body ++ first :: others ++ rest).dropWhile accepts = first :: others ++ rest := by
      rw [List.append_assoc, List.dropWhile_append_of_pos accepted]
      simp [stops]
    have taken : (body ++ first :: others ++ rest).takeWhile accepts = body := by
      rw [List.append_assoc, List.takeWhile_append_of_pos accepted]
      simp [stops]
    rw [spanned, dropped, taken, (literal_spells (first :: others) _ () rest).mpr ⟨_,rfl,rfl⟩]
    rfl

theorem Spells.seq {g : V → Matcher U W} {more : V → W → List U → Prop} (first : Spells f words)
    (second : ∀ v, Spells (g v) (more v)) :
    Spells (seq f g) fun w word =>
      ∃ v early late, words v early ∧ more v w late ∧ word = early ++ late := by
  intro s w rest
  rw [PrefixMatch.seq, Option.bind_eq_some_iff]
  constructor
  · rintro ⟨⟨v,between⟩,found,then_found⟩
    obtain ⟨early,spelled,rfl⟩ := (first s v between).mp found
    obtain ⟨late,spelled',rfl⟩ := (second v between w rest).mp then_found
    exact ⟨early ++ late,⟨v,early,late,spelled,spelled',rfl⟩,(List.append_assoc ..).symm⟩
  · rintro ⟨_,⟨v,early,late,spelled,spelled',rfl⟩,rfl⟩
    refine ⟨(v, late ++ rest),(first _ v _).mpr ⟨early,spelled,List.append_assoc ..⟩,?_⟩
    exact (second v _ w rest).mpr ⟨late,spelled',rfl⟩

theorem Spells.accepting (spells : Spells f words) (keep : V → Bool) : Spells (accepting f keep) fun v word => keep v = true ∧ words v word := by
  intro s v rest
  rw [PrefixMatch.accepting, Option.filter_eq_some_iff]
  constructor
  · rintro ⟨found,kept⟩
    obtain ⟨word,spelled,rfl⟩ := (spells s v rest).mp found
    exact ⟨word,⟨kept,spelled⟩,rfl⟩
  · rintro ⟨word,⟨kept,spelled⟩,rfl⟩
    exact ⟨(spells _ v rest).mpr ⟨word,spelled,rfl⟩,kept⟩

theorem Spells.mapTo (spells : Spells f words) (g : V → W) :
    Spells (mapTo f g) fun w word => ∃ v, g v = w ∧ words v word := by
  intro s w rest
  rw [PrefixMatch.mapTo, Option.map_eq_some_iff]
  constructor
  · rintro ⟨⟨v,behind⟩,found,same⟩
    cases same
    obtain ⟨word,spelled,rfl⟩ := (spells s v behind).mp found
    exact ⟨word,⟨v,rfl,spelled⟩,rfl⟩
  · rintro ⟨word,⟨v,rfl,spelled⟩,rfl⟩
    exact ⟨(v, rest),(spells _ v rest).mpr ⟨word,spelled,rfl⟩,rfl⟩

/-- No text begins with a word of both. -/
theorem Spells.choice {f g : Matcher U V} (first : Spells f words) (second : Spells g more)
    (apart : ∀ v w early late rest rest', words v early → more w late → early ++ rest ≠ late ++ rest') :
    Spells (choice f g) fun v word => words v word ∨ more v word := by
  intro s v rest
  rw [PrefixMatch.choice]
  cases found : f s with
  | some result =>
    obtain ⟨w,behind⟩ := result
    obtain ⟨word,spelled,rfl⟩ := (first s w behind).mp found
    rw [Option.some_or]
    constructor
    · intro same
      cases same
      exact ⟨word,.inl spelled,rfl⟩
    · rintro ⟨other,spelled' | spelled',same⟩
      · rw [← found]
        exact (first _ v rest).mpr ⟨other,spelled',same⟩
      · exact absurd same (apart w v word other behind rest spelled spelled')
  | none =>
    rw [Option.none_or, second s v rest]
    constructor
    · rintro ⟨word,spelled,rfl⟩
      exact ⟨word,.inr spelled,rfl⟩
    · rintro ⟨word,spelled | spelled,rfl⟩
      · rw [(first _ v rest).mpr ⟨word,spelled,rfl⟩] at found
        cases found
      · exact ⟨word,spelled,rfl⟩

/-- The first unit that is not accepted is the same in both. -/
theorem stop_unique {one two : List U} {u v : U} {rest rest' : List U} (first : ∀ w ∈ one, accepts w = true)
    (stops : accepts u = false) (second : ∀ w ∈ two, accepts w = true) (stops' : accepts v = false)
    (same : one ++ u :: rest = two ++ v :: rest') : u = v := by
  have dropped := congrArg (List.dropWhile accepts) same
  rw [List.dropWhile_append_of_pos first, List.dropWhile_append_of_pos second] at dropped
  simp only [List.dropWhile_cons, stops, stops', Bool.false_eq_true, if_false, List.cons.injEq] at dropped
  exact dropped.1

/-- What stands behind the word does not matter. -/
theorem Spells.append (spells : Spells f words) (found : f s = some (v, rest)) (behind : List U) :
    f (s ++ behind) = some (v, rest ++ behind) := by
  obtain ⟨word,spelled,rfl⟩ := (spells s v rest).mp found
  exact (spells _ v _).mpr ⟨word,spelled,List.append_assoc ..⟩

theorem Spells.of_iff (spells : Spells f words) (same : ∀ v word, words v word ↔ more v word) : Spells f more := by
  intro s v rest
  rw [spells s v rest]
  simp only [same]

/-- A word found only with more text is cut by the end of the text. -/
theorem Spells.cut (spells : Spells f words) {s behind rest : List U} (absent : f s = none)
    (found : f (s ++ behind) = some (v, rest)) : ∃ more, words v (s ++ more) ∧ more ≠ [] ∧ behind = more ++ rest := by
  obtain ⟨word,spelled,same⟩ := (spells _ v rest).mp found
  rcases List.append_eq_append_iff.mp same with ⟨more,rfl,split⟩ | ⟨more,rfl,-⟩
  · refine ⟨more,spelled,?_,split⟩
    rintro rfl
    rw [(spells s v []).mpr ⟨s ++ [],spelled,by simp⟩] at absent
    cases absent
  · rw [(spells _ v more).mpr ⟨word,spelled,rfl⟩] at absent
    cases absent

end PrefixMatch
