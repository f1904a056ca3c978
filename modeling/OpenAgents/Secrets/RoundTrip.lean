import OpenAgents.Lib.CutText
import OpenAgents.Secrets.Obfuscator

/- When the secrets come back: the placeholders are read from left to right, and the number sign in
   front of one can close a token that the text before it opens. -/
namespace SecretRoundTrip
open JsText OrderedMap TextReplace CutText Secrets

/- No token starts anywhere in the text. -/
def NoToken (text : JsString) : Prop := ∀ i < text.length, isToken ((text.drop i).take 6) = false

instance (text : JsString) : Decidable (NoToken text) :=
  inferInstanceAs (Decidable (∀ i < text.length, isToken ((text.drop i).take 6) = false))

/- The text ends with a number sign and four letters of a tag. -/
def endsOpen (text : JsString) : Bool := 5 ≤ text.length && isToken (text.drop (text.length - 5) ++ [numberSign])

/- No text before a placeholder ends so. -/
def Aligned : Cut CodeUnit → Prop
  | .whole _ => True
  | .hides text _ _ rest => endsOpen text = false ∧ Aligned rest

instance : (cut : Cut CodeUnit) → Decidable (Aligned cut)
  | .whole _ => .isTrue trivial
  | .hides text _ _ rest =>
      have := instDecidableAligned rest
      inferInstanceAs (Decidable (endsOpen text = false ∧ Aligned rest))

/- All secrets hidden in a text, one after the other. -/
def hideAll (pairs : List (JsString × JsString)) (cut : Cut CodeUnit) : Cut CodeUnit :=
  pairs.foldl (fun cut pair => cut.hide pair.1 pair.2) cut

/- Each secret is found in what the earlier ones have left of the text only. -/
def Clear : List (JsString × JsString) → Cut CodeUnit → Prop
  | [], _ => True
  | pair :: rest, cut => cut.Uncrossed pair.1 ∧ Clear rest (cut.hide pair.1 pair.2)

instance : (pairs : List (JsString × JsString)) → (cut : Cut CodeUnit) → Decidable (Clear pairs cut)
  | [], _ => .isTrue trivial
  | pair :: rest, cut =>
      have := instDecidableClear rest (cut.hide pair.1 pair.2)
      inferInstanceAs (Decidable (cut.Uncrossed pair.1 ∧ Clear rest (cut.hide pair.1 pair.2)))

section tokens
variable {lookup : JsString → Option JsString}

theorem token_length {token : JsString} (is : isToken token = true) : token.length = 6 := by
  unfold isToken at is
  split at is
  · rfl
  · contradiction

theorem token_first {token : JsString} (is : isToken token = true) : ∃ rest, token = numberSign :: rest := by
  match token, is with
  | [a, b, c, d, e, f], is =>
    simp only [isToken, Bool.and_eq_true, beq_iff_eq] at is
    exact ⟨[b, c, d, e, f],by rw [is.1.1.1.1.1]⟩

theorem replaceTokens_token {token : JsString} (is : isToken token = true) (rest : JsString) :
    replaceTokens lookup (token ++ rest) = (lookup token).getD token ++ replaceTokens lookup rest := by
  match token, is with
  | [a, b, c, d, e, f], is =>
    change replaceTokens lookup (a :: b :: c :: d :: e :: f :: rest) = _
    rw [replaceTokens, if_pos is]

theorem replaceTokens_cons {c : CodeUnit} {rest : JsString} (other : isToken ((c :: rest).take 6) = false) :
    replaceTokens lookup (c :: rest) = c :: replaceTokens lookup rest := by
  match rest with
  | b :: d :: e :: f :: g :: more =>
    rw [replaceTokens, if_neg (by simpa using other)]
  | [] => rfl
  | [_] => rfl
  | [_, _] => rfl
  | [_, _, _] => rfl
  | [_, _, _, _] => rfl

theorem replaceTokens_literal {text rest : JsString}
    (none' : ∀ i < text.length, isToken (((text ++ rest).drop i).take 6) = false) :
    replaceTokens lookup (text ++ rest) = text ++ replaceTokens lookup rest := by
  induction text with
  | nil => rfl
  | cons c text ih =>
    have first := none' 0 (by simp)
    rw [List.drop_zero, List.cons_append] at first
    rw [List.cons_append, replaceTokens_cons first, ih, List.cons_append]
    intro i less
    exact none' (i + 1) (by simpa using less)

theorem replaceTokens_none {text : JsString} (none' : NoToken text) : replaceTokens lookup text = text := by
  have literal := @replaceTokens_literal lookup text [] (by rw [List.append_nil]; exact none')
  rw [List.append_nil] at literal
  rw [literal]
  exact List.append_nil text

theorem replaceTokens_unknown (unknown : ∀ token, lookup token = none) (text : JsString) : replaceTokens lookup text = text := by
  fun_induction replaceTokens lookup text with
  | case1 a b c d e f rest token ih =>
    rw [unknown, ih]
    rfl
  | case2 a b c d e f rest other ih => rw [ih]
  | case3 short => rfl

theorem noToken_of_noSign {text : JsString} (noSign : numberSign ∉ text) : NoToken text := by
  intro i less
  cases found : isToken ((text.drop i).take 6) with
  | false => rfl
  | true =>
    obtain ⟨rest,is⟩ := token_first found
    have mem : numberSign ∈ (text.drop i).take 6 := by
      rw [is]
      exact List.mem_cons_self
    exact absurd (List.mem_of_mem_drop (List.mem_of_mem_take mem)) noSign

end tokens

theorem numberSign_no_tag : isTagChar numberSign = false := by decide

/-- A number sign in a token is its first or its last letter. -/
theorem token_sign {token : JsString} (is : isToken token = true) {k : Nat} (sign : token[k]? = some numberSign) :
    k = 0 ∨ k = 5 := by
  match token, is with
  | [a, b, c, d, e, f], is =>
    simp only [isToken, Bool.and_eq_true] at is
    have other : ∀ x, isTagChar x = true → x ≠ numberSign := by
      intro x tag same
      rw [same, numberSign_no_tag] at tag
      contradiction
    match k, sign with
    | 0, _ => exact .inl rfl
    | 1, sign => exact absurd (Option.some.inj sign) (other b is.1.1.1.1.2)
    | 2, sign => exact absurd (Option.some.inj sign) (other c is.1.1.1.2)
    | 3, sign => exact absurd (Option.some.inj sign) (other d is.1.1.2)
    | 4, sign => exact absurd (Option.some.inj sign) (other e is.1.2)
    | 5, _ => exact .inr rfl

theorem noToken_window {text before after : JsString} (none' : NoToken (before ++ text ++ after)) {i : Nat} (less : i < text.length) :
    isToken (((text ++ after).drop i).take 6) = false := by
  have window := none' (before.length + i) (by simp only [List.length_append]; omega)
  rw [List.append_assoc, ← List.drop_drop, List.drop_left] at window
  exact window

theorem noToken_append {before after : JsString} (none' : NoToken (before ++ after)) : NoToken before ∧ NoToken after := by
  constructor
  · intro i less
    cases token : isToken ((before.drop i).take 6) with
    | false => rfl
    | true =>
      have size := token_length token
      rw [List.length_take, List.length_drop] at size
      have window := @noToken_window before [] after none' i less
      rw [List.drop_append_of_le_length (by omega), List.take_append_of_le_length (by rw [List.length_drop]; omega), token] at window
      contradiction
  · intro i less
    have window := @noToken_window after before [] (by rw [List.append_nil]; exact none') i less
    rw [List.append_nil] at window
    exact window

/-- In front of a placeholder a token opens only five letters before it. -/
theorem before_placeholder {text placeholder rest : JsString} (none' : NoToken text) (token : isToken placeholder = true) {i : Nat}
    (less : i < text.length) (notFive : i + 5 ≠ text.length) :
    isToken (((text ++ (placeholder ++ rest)).drop i).take 6) = false := by
  rw [List.drop_append_of_le_length (Nat.le_of_lt less)]
  by_cases within : i + 6 ≤ text.length
  · rw [List.take_append_of_le_length (by rw [List.length_drop]; omega)]
    exact none' i less
  · obtain ⟨tail,is⟩ := token_first token
    cases found : isToken ((text.drop i ++ (placeholder ++ rest)).take 6) with
    | false => rfl
    | true =>
      have sign : ((text.drop i ++ (placeholder ++ rest)).take 6)[text.length - i]? = some numberSign := by
        rw [List.getElem?_take_of_lt (by omega), List.getElem?_append_right (by rw [List.length_drop]), List.length_drop,
          Nat.sub_self, is]
        rfl
      rcases token_sign found sign with first | last
      · omega
      · omega

section cuts
variable {lookup : JsString → Option JsString}

def Known (lookup : JsString → Option JsString) (secret placeholder : JsString) : Prop :=
  isToken placeholder = true ∧ lookup placeholder = some secret

/-- What stands in front of an aligned placeholder is read as it is, and the placeholder as its secret. -/
theorem replaceTokens_hides {text secret placeholder rest : JsString} (none' : NoToken text) (closed : endsOpen text = false)
    (known : Known lookup secret placeholder) :
    replaceTokens lookup (text ++ placeholder ++ rest) = text ++ secret ++ replaceTokens lookup rest := by
  obtain ⟨token,found⟩ := known
  have literal : replaceTokens lookup (text ++ (placeholder ++ rest)) = text ++ replaceTokens lookup (placeholder ++ rest) := by
    apply replaceTokens_literal
    intro i less
    by_cases five : i + 5 = text.length
    · obtain ⟨tail,is⟩ := token_first token
      have long : 5 ≤ text.length := by omega
      have here : i = text.length - 5 := by omega
      have size : (text.drop i).length = 5 := by
        rw [List.length_drop]
        omega
      have window : (text.drop i ++ (placeholder ++ rest)).take 6 = text.drop i ++ [numberSign] := by
        rw [List.take_append, size, is, List.take_of_length_le (by omega)]
        rfl
      rw [List.drop_append_of_le_length (Nat.le_of_lt less), window, here]
      simpa [endsOpen, long] using closed
    · exact before_placeholder none' token less five
  rw [List.append_assoc, literal, replaceTokens_token token, found, Option.getD_some, List.append_assoc]

theorem read_back {cut : Cut CodeUnit} (none' : NoToken cut.original) (known : cut.All (Known lookup)) (aligned : Aligned cut) :
    replaceTokens lookup cut.shown = cut.original := by
  induction cut with
  | whole text => exact replaceTokens_none none'
  | hides text secret placeholder rest ih =>
    obtain ⟨before,after⟩ := noToken_append none'
    rw [Cut.shown, replaceTokens_hides (noToken_append before).1 aligned.1 known.1, ih after known.2 aligned.2]
    rfl

/- No known secret is part of its placeholder, or begins with all of it but the last letter. -/
def Honest (lookup : JsString → Option JsString) : Prop :=
  ∀ placeholder secret, lookup placeholder = some secret → ¬ secret <:+: placeholder ∧ ¬ placeholder.take 5 <+: secret

/-- In front of a placeholder that is not aligned the wrong token is read. -/
theorem misread (honest : Honest lookup) {text secret placeholder rest original : JsString}
    (none' : NoToken (text ++ secret ++ original)) (opens : endsOpen text = true) (token : isToken placeholder = true)
    (some' : secret ≠ []) : replaceTokens lookup (text ++ placeholder ++ rest) ≠ text ++ secret ++ original := by
  simp only [endsOpen, Bool.and_eq_true, decide_eq_true_eq] at opens
  obtain ⟨long,closes⟩ := opens
  obtain ⟨tail,is⟩ := token_first token
  have clean := (noToken_append (noToken_append none').1).1
  have parts : text.take (text.length - 5) ++ text.drop (text.length - 5) = text := List.take_append_drop _ text
  have size : (text.drop (text.length - 5)).length = 5 := by
    rw [List.length_drop]
    omega
  have size' : (text.take (text.length - 5)).length = text.length - 5 := by
    rw [List.length_take]
    omega
  generalize text.take (text.length - 5) = before at parts size'
  generalize text.drop (text.length - 5) = five at parts size closes
  have grouped : text ++ placeholder ++ rest = before ++ (five ++ [numberSign] ++ (tail ++ rest)) := by
    rw [← parts, is]
    simp only [List.append_assoc, List.cons_append, List.nil_append]
  have literal : replaceTokens lookup (text ++ placeholder ++ rest) =
      before ++ ((lookup (five ++ [numberSign])).getD (five ++ [numberSign]) ++ replaceTokens lookup (tail ++ rest)) := by
    rw [grouped, ← replaceTokens_token closes]
    apply replaceTokens_literal
    intro i less
    rw [← grouped, List.append_assoc]
    exact before_placeholder clean token (by omega) (by omega)
  intro same
  rw [literal, ← parts, List.append_assoc, List.append_assoc, List.append_cancel_left_eq] at same
  cases found : lookup (five ++ [numberSign]) with
  | none =>
    rw [found, Option.getD_none, List.append_assoc, List.append_cancel_left_eq] at same
    obtain ⟨c,behind,starts⟩ := List.exists_cons_of_ne_nil some'
    rw [starts] at same
    have sign : c = numberSign := (List.cons.inj same).1.symm
    have room : before.length < (text ++ secret ++ original).length := by
      rw [List.length_append, List.length_append]
      omega
    have window := none' before.length room
    rw [← parts, starts, sign, List.append_assoc, List.append_assoc, List.drop_left, List.take_append, size,
      List.take_of_length_le (by omega)] at window
    have one : ((numberSign :: behind) ++ original).take 1 = [numberSign] := rfl
    rw [one, closes] at window
    contradiction
  | some other =>
    rw [found, Option.getD_some] at same
    obtain ⟨notInside,notTwin⟩ := honest _ other found
    have front : other <+: five ++ (secret ++ original) := by
      rw [← same]
      exact List.prefix_append _ _
    rcases Nat.le_total other.length five.length with short | more
    · have within := List.prefix_of_prefix_length_le front (List.prefix_append _ _) short
      exact notInside (within.trans (List.prefix_append _ _)).isInfix
    · apply notTwin
      rw [List.take_append_of_le_length (by omega), List.take_of_length_le (by omega)]
      exact List.prefix_of_prefix_length_le (List.prefix_append _ _) front more

theorem aligned_of_back (honest : Honest lookup) {cut : Cut CodeUnit} (none' : NoToken cut.original)
    (known : cut.All fun secret placeholder => Known lookup secret placeholder ∧ secret ≠ [])
    (back : replaceTokens lookup cut.shown = cut.original) : Aligned cut := by
  induction cut with
  | whole text => trivial
  | hides text secret placeholder rest ih =>
    cases opens : endsOpen text with
    | true => exact absurd back (misread honest none' opens known.1.1.1 known.1.2)
    | false =>
      have here : replaceTokens lookup (text ++ placeholder ++ rest.shown) = text ++ secret ++ replaceTokens lookup rest.shown :=
        replaceTokens_hides (noToken_append (noToken_append none').1).1 opens known.1.1
      have tail : replaceTokens lookup rest.shown = rest.original := by
        rw [Cut.shown, here, Cut.original, List.append_cancel_left_eq] at back
        exact back
      exact ⟨opens,ih (noToken_append none').2 known.2 tail⟩

end cuts

theorem tag_char (v : Nat) : isTagChar (hashChars.getD (v % hashChars.length) 0) = true := by
  have all : ∀ k < hashChars.length, isTagChar (hashChars.getD k 0) = true := by decide +kernel
  exact all _ (Nat.mod_lt v (by decide))

theorem placeholder_token (runtime : Runtime) (i : Nat) : isToken (buildPlaceholder runtime i) = true := by
  simp only [buildPlaceholder, tagFrom, List.cons_append, List.nil_append, isToken, tag_char, beq_self_eq_true, Bool.and_self]

section secrets
variable {runtime : Runtime} {secrets : List JsString}

def Distinct (runtime : Runtime) (secrets : List JsString) : Prop :=
  ∀ i < secrets.length, ∀ j < secrets.length, buildPlaceholder runtime i = buildPlaceholder runtime j → i = j

/- No secret is part of a placeholder. -/
def Foreign (runtime : Runtime) (secrets : List JsString) : Prop :=
  ∀ secret ∈ secrets, ∀ i < secrets.length, ¬ secret <:+: buildPlaceholder runtime i

/- No secret begins with the first five letters of its own placeholder. -/
def NoTwin (runtime : Runtime) (secrets : List JsString) : Prop :=
  ∀ i < secrets.length, ¬ (buildPlaceholder runtime i).take 5 <+: secrets.getD i []

instance : Decidable (Distinct runtime secrets) :=
  inferInstanceAs (Decidable (∀ i < secrets.length, ∀ j < secrets.length, buildPlaceholder runtime i = buildPlaceholder runtime j → i = j))

instance : Decidable (Foreign runtime secrets) :=
  inferInstanceAs (Decidable (∀ secret ∈ secrets, ∀ i < secrets.length, ¬ secret <:+: buildPlaceholder runtime i))

theorem placeholder_known (distinct : Distinct runtime secrets) {i : Nat} {secret : JsString} (there : secrets[i]? = some secret) :
    get? (ofSecrets runtime secrets).deobfuscateMap (buildPlaceholder runtime i) = some secret := by
  have built := ofSecrets_built runtime secrets
  obtain ⟨other,found⟩ := built.listed i secret there
  obtain ⟨j,here,same⟩ := built.known _ other found
  have index := distinct i (List.getElem?_eq_some_iff.mp there).1 j (List.getElem?_eq_some_iff.mp here).1 same
  rw [found, ← here, ← index, there]

theorem honest_lookup (foreign : Foreign runtime secrets) (noTwin : NoTwin runtime secrets) :
    Honest (get? (ofSecrets runtime secrets).deobfuscateMap) := by
  intro placeholder secret found
  obtain ⟨i,there,is⟩ := (ofSecrets_built runtime secrets).known placeholder secret found
  have inside := (List.getElem?_eq_some_iff.mp there).1
  have own := noTwin i inside
  rw [List.getD_eq_getElem?_getD, there, Option.getD_some] at own
  rw [is]
  exact ⟨foreign secret (List.mem_of_getElem? there) i inside,own⟩

theorem original_hideAll (pairs : List (JsString × JsString)) (cut : Cut CodeUnit) : (hideAll pairs cut).original = cut.original := by
  induction pairs generalizing cut with
  | nil => rfl
  | cons pair rest ih => exact (ih _).trans (Cut.original_hide cut)

/-- As long as the secrets keep to what is left of the text, the obfuscated text is the one shown. -/
theorem shown_hideAll {pairs : List (JsString × JsString)} {holds : JsString → JsString → Prop}
    (each : ∀ pair ∈ pairs, pair.1 ≠ [] ∧ holds pair.1 pair.2) (marks : ∀ pair ∈ pairs, ∀ secret placeholder, holds secret placeholder →
      ¬ pair.1 <:+: placeholder) {cut : Cut CodeUnit} (all : cut.All holds) (clear : Clear pairs cut) :
    (hideAll pairs cut).shown = replacePairs pairs cut.shown ∧ (hideAll pairs cut).All holds := by
  induction pairs generalizing cut with
  | nil => exact ⟨rfl,all⟩
  | cons pair rest ih =>
    obtain ⟨here,later⟩ := List.forall_mem_cons.mp each
    have clean := all.imp (marks pair List.mem_cons_self)
    have step : (Cut.hide pair.1 pair.2 cut).shown = replaceAll cut.shown pair.1 pair.2 := Cut.shown_hide here.1 clean clear.1
    have next := ih later (fun other mem => marks other (List.mem_cons_of_mem _ mem)) (Cut.all_hide here.2 all) clear.2
    rw [step] at next
    exact next

theorem deobfuscate_eq (text : JsString) :
    deobfuscate (ofSecrets runtime secrets) text = replaceTokens (get? (ofSecrets runtime secrets).deobfuscateMap) text := by
  rw [deobfuscate, ofSecrets_hasAny]
  by_cases none' : secrets = []
  · rw [none']
    exact (replaceTokens_unknown (fun token => rfl) text).symm
  · by_cases sign : numberSign ∈ text
    · simp [none', sign]
    · rw [if_pos (by simp [sign])]
      exact (replaceTokens_none (noToken_of_noSign sign)).symm

end secrets

/- A text that goes out and comes back. -/
def roundTrip (runtime : Runtime) (secrets : List JsString) (text : JsString) : JsString :=
  let sent := obfuscate runtime text (ofSecrets runtime secrets)
  deobfuscate sent.2 sent.1

/- What the secrets leave of a text. -/
def hidden (runtime : Runtime) (secrets : List JsString) (text : JsString) : Cut CodeUnit :=
  hideAll (orderedPairs runtime secrets) (.whole text)

def KeptApart (runtime : Runtime) (secrets : List JsString) (text : JsString) : Prop :=
  Clear (orderedPairs runtime secrets) (.whole text)

instance (runtime : Runtime) (secrets : List JsString) (text : JsString) : Decidable (KeptApart runtime secrets text) :=
  inferInstanceAs (Decidable (Clear (orderedPairs runtime secrets) (.whole text)))

/- A secret that begins with a number sign is found across the edge of a placeholder. -/
example : ¬ KeptApart seeded [js "hunter-2", js "#ab"] (js "hunter-2ab") ∧
    roundTrip seeded [js "hunter-2", js "#ab"] (js "hunter-2ab") = js "hunter-2NTJ5#" := by
  decide +kernel

end SecretRoundTrip
