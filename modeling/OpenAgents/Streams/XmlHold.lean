import OpenAgents.Streams.MarkupHealing

/- DSML tags: a tag without an inner `>` is held until it is whole. -/
namespace StreamMarkupHealing
open JsText JsJson HeldScanner PrefixMatch

/- Words of the tags -/

def DsmlTagWord (bracket name : JsString) (word : JsString) : Prop :=
  ∃ p q, isDsmlPipe p = true ∧ isDsmlPipe q = true ∧ word = bracket ++ p :: (js "DSML" ++ q :: name)

theorem dsmlTag_spells (bracket name : JsString) :
    Spells (dsmlTag bracket name) fun _ word => DsmlTagWord bracket name word := by
  have pipe := one_spells isDsmlPipe
  have composed := (literal_spells bracket).seq fun _ => pipe.seq fun _ =>
    (literal_spells (js "DSML")).seq fun _ => pipe.seq fun _ => literal_spells name
  refine composed.of_iff fun _ word => ?_
  constructor
  · rintro ⟨_,_,_,rfl,⟨p,_,_,⟨first,rfl⟩,⟨_,_,_,rfl,⟨q,_,_,⟨second,rfl⟩,rfl,rfl⟩,rfl⟩,rfl⟩,rfl⟩
    exact ⟨p,q,first,second,rfl⟩
  · rintro ⟨p,q,first,second,rfl⟩
    exact ⟨(),_,_,rfl,⟨p,_,_,⟨first,rfl⟩,⟨(),_,_,rfl,⟨q,_,_,⟨second,rfl⟩,rfl,rfl⟩,rfl⟩,rfl⟩,rfl⟩

theorem tagEnd_spells : Spells tagEnd fun blanks word =>
    (∀ c ∈ blanks, isWhitespace c = true) ∧ word = blanks ++ [greaterThan] :=
  spanned_spells (by decide)

theorem blanksThen_spells {first : CodeUnit} {others : JsString} (stops : isWhitespace first = false) :
    Spells (blanksThen (first :: others)) fun blanks word =>
      (!blanks.isEmpty) = true ∧ (∀ c ∈ blanks, isWhitespace c = true) ∧ word = blanks ++ first :: others :=
  (spanned_spells stops).accepting _

def NameAttributeWord (name word : JsString) : Prop :=
  ∃ blanks, (!blanks.isEmpty) = true ∧ (∀ c ∈ blanks, isWhitespace c = true) ∧
    (∀ c ∈ name, c ≠ quotationMark) ∧ word = blanks ++ js "name=\"" ++ (name ++ [quotationMark])

theorem nameAttribute_spells : Spells nameAttribute NameAttributeWord := by
  have quoted : Spells (spanned (fun c => decide (c ≠ quotationMark)) [quotationMark]) fun body word =>
      (∀ c ∈ body, decide (c ≠ quotationMark) = true) ∧ word = body ++ [quotationMark] :=
    spanned_spells (by decide)
  have blanks : Spells (blanksThen (js "name=\"")) fun blanks word =>
      (!blanks.isEmpty) = true ∧ (∀ c ∈ blanks, isWhitespace c = true) ∧ word = blanks ++ js "name=\"" :=
    blanksThen_spells (by decide)
  refine (blanks.seq fun _ => quoted).of_iff fun name word => ?_
  simp only [decide_eq_true_eq]
  constructor
  · rintro ⟨blanks,_,_,⟨some_blank,blank,rfl⟩,⟨plain,rfl⟩,rfl⟩
    exact ⟨blanks,some_blank,blank,plain,rfl⟩
  · rintro ⟨blanks,some_blank,blank,plain,rfl⟩
    exact ⟨blanks,_,_,⟨some_blank,blank,rfl⟩,⟨plain,rfl⟩,rfl⟩

/- An opening tag with its quoted name inside. -/
def OpenTagWord (name word : JsString) : Prop :=
  (∃ kind tag rest, DsmlTagWord (js "<") kind tag ∧ word = tag ++ rest) ∧
    ∃ before behind, word = before ++ name ++ behind ++ [greaterThan] ∧ behind ≠ []

theorem openTagWord_of {tag name quoted rest : JsString} {kind : JsString}
    (opens : DsmlTagWord (js "<") kind tag) (named : NameAttributeWord name quoted) :
    OpenTagWord name (tag ++ (quoted ++ (rest ++ [greaterThan]))) := by
  refine ⟨⟨kind,tag,_,opens,rfl⟩,?_⟩
  obtain ⟨blanks,-,-,-,rfl⟩ := named
  refine ⟨tag ++ (blanks ++ js "name=\""),quotationMark :: rest,?_,List.cons_ne_nil _ _⟩
  simp

def InvokeOpenWord (name word : JsString) : Prop :=
  ∃ tag quoted blanks, DsmlTagWord (js "<") (js "invoke") tag ∧ NameAttributeWord name quoted ∧
    (∀ c ∈ blanks, isWhitespace c = true) ∧ word = tag ++ (quoted ++ (blanks ++ [greaterThan]))

theorem invokeOpen_spells : Spells invokeOpen InvokeOpenWord := by
  refine ((dsmlTag_spells (js "<") (js "invoke")).seq fun _ =>
    nameAttribute_spells.seq fun name => tagEnd_spells.mapTo fun _ => name).of_iff fun name word => ?_
  constructor
  · rintro ⟨_,tag,_,opens,⟨_,quoted,_,named,⟨blanks,rfl,blank,rfl⟩,rfl⟩,rfl⟩
    exact ⟨tag,quoted,blanks,opens,named,blank,rfl⟩
  · rintro ⟨tag,quoted,blanks,opens,named,blank,rfl⟩
    exact ⟨(),tag,_,opens,⟨name,quoted,_,named,⟨blanks,rfl,blank,rfl⟩,rfl⟩,rfl⟩

theorem booleanWord_spells : Spells booleanWord fun value word =>
    (∃ u, js "true" = value ∧ (fun (_ : Unit) word => word = js "true\"") u word) ∨
      ∃ u, js "false" = value ∧ (fun (_ : Unit) word => word = js "false\"") u word := by
  refine ((literal_spells (js "true\"")).mapTo _).choice ((literal_spells (js "false\"")).mapTo _) ?_
  rintro _ _ early late rest rest' ⟨-,-,rfl⟩ ⟨-,-,rfl⟩ same
  have apart : (116 : CodeUnit) ≠ 102 := by decide
  exact apart (List.cons.inj same).1

theorem stringAttribute_spells : ∃ words, Spells stringAttribute words ∧
    ∀ value word, words value word → ∃ blanks rest, (∀ c ∈ blanks, isWhitespace c = true) ∧
      word = blanks ++ 115 :: rest := by
  have blanks : Spells (blanksThen (js "string=\"")) fun blanks word =>
      (!blanks.isEmpty) = true ∧ (∀ c ∈ blanks, isWhitespace c = true) ∧ word = blanks ++ js "string=\"" :=
    blanksThen_spells (by decide)
  refine ⟨_,blanks.seq fun _ => booleanWord_spells,?_⟩
  rintro value _ ⟨blanks,_,late,⟨-,blank,rfl⟩,-,rfl⟩
  refine ⟨blanks,js "tring=\"" ++ late,blank,?_⟩
  rw [List.append_assoc]
  rfl

/-- Some words, all of which are opening tags. -/
theorem parameterOpen_spells : ∃ words, Spells parameterOpen words ∧
    ∀ found word, words found word → OpenTagWord found.1 word := by
  obtain ⟨words,string_spells,shape⟩ := stringAttribute_spells
  have attributes (name : JsString) := ((string_spells.seq fun value =>
      tagEnd_spells.mapTo fun _ => (name, some value)).choice
    (tagEnd_spells.mapTo fun _ => (name, (none : Option JsString)))) (by
      rintro _ _ _ _ rest rest' ⟨value,early,late,string,-,rfl⟩ ⟨ends,-,ends_blank,rfl⟩ same
      obtain ⟨blanks,more,blank,rfl⟩ := shape value early string
      simp only [List.append_assoc, List.cons_append, List.nil_append] at same
      have stop := stop_unique blank (by decide) ends_blank (by decide) same
      revert stop
      decide)
  refine ⟨_,(dsmlTag_spells (js "<") (js "parameter")).seq fun _ => nameAttribute_spells.seq attributes,?_⟩
  rintro ⟨_,_⟩ _ ⟨_,tag,_,opens,⟨name,quoted,_,named,late,rfl⟩,rfl⟩
  rcases late with ⟨value,early,_,-,⟨ends,same,-,rfl⟩,rfl⟩ | ⟨ends,same,-,rfl⟩
  · cases same
    rw [← List.append_assoc early]
    exact openTagWord_of opens named
  · cases same
    exact openTagWord_of opens named

theorem invokeOpenWord_open {name word : JsString} (spelled : InvokeOpenWord name word) :
    OpenTagWord name word := by
  obtain ⟨tag,quoted,blanks,opens,named,-,rfl⟩ := spelled
  exact openTagWord_of opens named

/- A tag that ends with its first `>`. -/
def PlainTagWord (word : JsString) : Prop :=
  word.head? = some lessThan ∧ greaterThan ∉ word.dropLast ∧ word.length ≤ maxXmlPartialHold

theorem plainTagWord_of {bracket word : JsString} (body : JsString) (opens : bracket.head? = some lessThan)
    (bracket_free : greaterThan ∉ bracket) (body_free : greaterThan ∉ body)
    (short : bracket.length + body.length + 7 ≤ maxXmlPartialHold)
    (spelled : DsmlTagWord bracket (body ++ [greaterThan]) word) : PlainTagWord word := by
  obtain ⟨p,q,p_pipe,q_pipe,rfl⟩ := spelled
  have pipe_free : ∀ c, isDsmlPipe c = true → greaterThan ≠ c := by
    rintro c pipe rfl
    revert pipe
    decide
  have letters : greaterThan ∉ js "DSML" := by decide
  have four : (js "DSML").length = 4 := by decide
  refine ⟨?_,?_,?_⟩
  · cases bracket with
    | nil => cases opens
    | cons c rest => exact opens
  · have shape : bracket ++ p :: (js "DSML" ++ q :: (body ++ [greaterThan])) =
        bracket ++ p :: (js "DSML" ++ q :: body) ++ [greaterThan] := by simp
    rw [shape, List.dropLast_concat]
    simp only [List.mem_append, List.mem_cons, not_or]
    exact ⟨bracket_free,pipe_free p p_pipe,letters,pipe_free q q_pipe,body_free⟩
  · simp only [List.length_append, List.length_cons, List.length_nil, four]
    omega

variable {word : JsString}

theorem toolCallsOpen_plain (spelled : DsmlTagWord (js "<") (js "tool_calls>") word) : PlainTagWord word :=
  plainTagWord_of (js "tool_calls") (by decide) (by decide) (by decide) (by decide) spelled

theorem toolCallsClose_plain (spelled : DsmlTagWord (js "</") (js "tool_calls>") word) : PlainTagWord word :=
  plainTagWord_of (js "tool_calls") (by decide) (by decide) (by decide) (by decide) spelled

theorem invokeClose_plain (spelled : DsmlTagWord (js "</") (js "invoke>") word) : PlainTagWord word :=
  plainTagWord_of (js "invoke") (by decide) (by decide) (by decide) (by decide) spelled

theorem parameterClose_plain (spelled : DsmlTagWord (js "</") (js "parameter>") word) : PlainTagWord word :=
  plainTagWord_of (js "parameter") (by decide) (by decide) (by decide) (by decide) spelled

/-- What follows the bracket tells an opening tag from a closing one. -/
theorem opening_is_not_closing {kind name early late rest rest' : JsString}
    (opens : DsmlTagWord (js "<") kind early) (closes : DsmlTagWord (js "</") name late) :
    early ++ rest ≠ late ++ rest' := by
  obtain ⟨p,q,pipe,-,rfl⟩ := opens
  obtain ⟨p',q',-,-,rfl⟩ := closes
  intro same
  have slash : p = 47 := (List.cons.inj (List.cons.inj same).2).1
  subst slash
  revert pipe
  decide

/- The opening tag with a quoted name that the state would take, and how long it is. -/
def openTagLength (mode : Mode) (s : JsString) : Option Nat :=
  match mode.xmlState with
  | .inSection => (invokeOpen s).map fun found => s.length - found.2.length
  | .invoke _ _ => (parameterOpen s).map fun found => s.length - found.2.length
  | _ => none

section Tags
variable {V : Type} {f : Matcher CodeUnit V} {words : V → JsString → Prop} {after : V → Mode × Output}

variable {s : JsString} {taken : Taken Mode Output}

theorem takeTag_append (spells : Spells f words) (found : takeTag (f s) s after = some taken) (behind : JsString) :
    takeTag (f (s ++ behind)) (s ++ behind) after = some taken := by
  rw [takeTag, Option.map_eq_some_iff] at found ⊢
  obtain ⟨⟨v,rest⟩,matched,rfl⟩ := found
  refine ⟨(v, rest ++ behind),spells.append matched behind,?_⟩
  have size : (s ++ behind).length - (rest ++ behind).length = s.length - rest.length := by
    simp only [List.length_append]
    omega
  simp only [size]

theorem takeTag_inside (spells : Spells f words) (found : takeTag (f s) s after = some taken) :
    ∃ v word rest, words v word ∧ s = word ++ rest ∧ taken.size = word.length ∧
      (taken.mode, taken.output) = after v := by
  rw [takeTag, Option.map_eq_some_iff] at found
  obtain ⟨⟨v,rest⟩,matched,rfl⟩ := found
  obtain ⟨word,spelled,rfl⟩ := (spells s v rest).mp matched
  exact ⟨v,word,rest,spelled,rfl,by simp,rfl⟩

/-- A tag that only more text completes: its word goes beyond the end. -/
theorem takeTag_cut (spells : Spells f words) {s behind : JsString} (absent : takeTag (f s) s after = none)
    (found : takeTag (f (s ++ behind)) (s ++ behind) after = some taken) :
    ∃ v more, words v (s ++ more) ∧ more ≠ [] ∧ taken.size = (s ++ more).length := by
  have unmatched : f s = none := by simpa [takeTag] using absent
  rw [takeTag, Option.map_eq_some_iff] at found
  obtain ⟨⟨v,rest⟩,matched,rfl⟩ := found
  obtain ⟨more,spelled,some_more,rfl⟩ := spells.cut unmatched matched
  refine ⟨v,more,spelled,some_more,?_⟩
  simp only [List.length_append]
  omega

end Tags

/-- A closing tag is tried before an opening one, and the longer text cannot prefer it. -/
theorem orTag_append {V W : Type} {f : Matcher CodeUnit V} {g : Matcher CodeUnit W} {name : JsString}
    {words : W → JsString → Prop} {after : V → Mode × Output} {after' : W → Mode × Output}
    (closing : Spells f fun _ word => DsmlTagWord (js "</") name word) (opening : Spells g words)
    (opens : ∀ w word, words w word → ∃ kind, OpenTagWord kind word) {s : JsString} {taken : Taken Mode Output}
    (found : (takeTag (f s) s after).or (takeTag (g s) s after') = some taken) (behind : JsString) :
    (takeTag (f (s ++ behind)) (s ++ behind) after).or (takeTag (g (s ++ behind)) (s ++ behind) after') =
      some taken := by
  cases first : takeTag (f s) s after with
  | some closed =>
    rw [first, Option.some_or] at found
    rw [takeTag_append closing first behind, Option.some_or]
    exact found
  | none =>
    rw [first, Option.none_or] at found
    have later := takeTag_append opening found behind
    cases second : takeTag (f (s ++ behind)) (s ++ behind) after with
    | none =>
      rw [Option.none_or]
      exact later
    | some closed =>
      obtain ⟨_,early,rest,spelled,same,-⟩ := takeTag_inside closing second
      obtain ⟨w,late,rest',spelled',same',-⟩ := takeTag_inside opening later
      obtain ⟨kind,⟨tag,start,more,opened,rfl⟩,-⟩ := opens w late spelled'
      rw [List.append_assoc] at same'
      exact absurd (same'.symm.trans same) (opening_is_not_closing opened spelled)

theorem openTagWord_head {name word : JsString} (opens : OpenTagWord name word) :
    word.head? = some lessThan := by
  obtain ⟨⟨kind,tag,rest,⟨p,q,-,-,rfl⟩,rfl⟩,-⟩ := opens
  rfl

theorem orTag_cut {V W : Type} {f : Matcher CodeUnit V} {g : Matcher CodeUnit W} {name : JsString}
    {words : W → JsString → Prop} {after : V → Mode × Output} {after' : W → Mode × Output}
    (closing : Spells f fun _ word => DsmlTagWord (js "</") name word)
    (plain : ∀ word, DsmlTagWord (js "</") name word → PlainTagWord word) (opening : Spells g words)
    (opens : ∀ w word, words w word → ∃ kind, OpenTagWord kind word) {s behind : JsString}
    {taken : Taken Mode Output}
    (absent : (takeTag (f s) s after).or (takeTag (g s) s after') = none)
    (found : (takeTag (f (s ++ behind)) (s ++ behind) after).or
      (takeTag (g (s ++ behind)) (s ++ behind) after') = some taken) :
    ∃ more, more ≠ [] ∧ (s ++ more).head? = some lessThan ∧
      (PlainTagWord (s ++ more) ∨
        (g (s ++ behind)).map (fun found => (s ++ behind).length - found.2.length) =
          some (s ++ more).length) := by
  rw [Option.or_eq_none_iff] at absent
  rcases Option.or_eq_some_iff.mp found with closes | ⟨-,opened⟩
  · obtain ⟨_,more,spelled,some_more,-⟩ := takeTag_cut closing absent.1 closes
    have word := plain _ spelled
    exact ⟨more,some_more,word.1,.inl word⟩
  · obtain ⟨w,more,spelled,some_more,size⟩ := takeTag_cut opening absent.2 opened
    obtain ⟨kind,word⟩ := opens w _ spelled
    refine ⟨more,some_more,openTagWord_head word,.inr ?_⟩
    rw [takeTag, Option.map_eq_some_iff] at opened
    obtain ⟨result,matched,rfl⟩ := opened
    rw [matched, Option.map_some, ← size]

section Repair
variable (parseJsonWithRepair : JsString → Option Json)

variable {mode : Mode} {s : JsString} {taken : Taken Mode Output}

theorem matchXmlTag_append (found : matchXmlTag parseJsonWithRepair mode s = some taken) (behind : JsString) :
    matchXmlTag parseJsonWithRepair mode (s ++ behind) = some taken := by
  unfold matchXmlTag at found ⊢
  cases state : mode.xmlState with
  | idle =>
    simp only [state] at found ⊢
    exact takeTag_append (dsmlTag_spells _ _) found behind
  | inSection =>
    simp only [state] at found ⊢
    exact orTag_append (dsmlTag_spells _ _) invokeOpen_spells
      (fun name word spelled => ⟨name,invokeOpenWord_open spelled⟩) found behind
  | invoke name args =>
    simp only [state] at found ⊢
    obtain ⟨words,spells,opens⟩ := parameterOpen_spells
    exact orTag_append (dsmlTag_spells _ _) spells
      (fun found word spelled => ⟨found.1,opens found word spelled⟩) found behind
  | parameter invokeName args paramName isString value =>
    simp only [state] at found ⊢
    exact takeTag_append (dsmlTag_spells _ _) found behind

/-- A tag that only more text completes is a plain one, or the opening tag of the state. -/
theorem matchXmlTag_cut {s behind : JsString} (absent : matchXmlTag parseJsonWithRepair mode s = none)
    (found : matchXmlTag parseJsonWithRepair mode (s ++ behind) = some taken) :
    ∃ more, more ≠ [] ∧ (s ++ more).head? = some lessThan ∧
      (PlainTagWord (s ++ more) ∨ openTagLength mode (s ++ behind) = some (s ++ more).length) := by
  unfold matchXmlTag at absent found
  cases state : mode.xmlState with
  | idle =>
    simp only [state] at absent found
    obtain ⟨_,more,spelled,some_more,-⟩ := takeTag_cut (dsmlTag_spells _ _) absent found
    have word := toolCallsOpen_plain spelled
    exact ⟨more,some_more,word.1,.inl word⟩
  | inSection =>
    simp only [state] at absent found
    rw [openTagLength, state]
    exact orTag_cut (dsmlTag_spells _ _) (fun _ => toolCallsClose_plain) invokeOpen_spells
      (fun name word spelled => ⟨name,invokeOpenWord_open spelled⟩) absent found
  | invoke name args =>
    simp only [state] at absent found
    rw [openTagLength, state]
    obtain ⟨words,spells,opens⟩ := parameterOpen_spells
    exact orTag_cut (dsmlTag_spells _ _) (fun _ => invokeClose_plain) spells
      (fun found word spelled => ⟨found.1,opens found word spelled⟩) absent found
  | parameter invokeName args paramName isString value =>
    simp only [state] at absent found
    obtain ⟨_,more,spelled,some_more,-⟩ := takeTag_cut (dsmlTag_spells _ _) absent found
    have word := parameterClose_plain spelled
    exact ⟨more,some_more,word.1,.inl word⟩

/-- Of the opening tags of the text the state would take here, those that go beyond the
    end have no `>` before it, and no tag is longer than what is held. -/
def HeldWhole (mode : Mode) (s behind : JsString) : Prop :=
  ∀ n ∈ openTagLength mode (s ++ behind),
    n ≤ maxXmlPartialHold ∧ (s.length < n → greaterThan ∉ s.drop 1)

theorem partialXmlTag_iff : startsWithPartialXmlTag s = true ↔
    s.head? = some lessThan ∧ s.length ≤ maxXmlPartialHold ∧ greaterThan ∉ s.drop 1 := by
  simp only [startsWithPartialXmlTag, Bool.and_eq_true, decide_eq_true_eq, Bool.not_eq_true',
    List.contains_eq_mem, decide_eq_false_iff_not, and_assoc]

theorem partialXmlTag_append (nonempty : s ≠ []) (behind : JsString) (held : startsWithPartialXmlTag (s ++ behind) = true) : startsWithPartialXmlTag s = true := by
  rw [partialXmlTag_iff] at held ⊢
  obtain ⟨opens,short,free⟩ := held
  rw [List.length_append] at short
  refine ⟨?_,by omega,?_⟩
  · rw [List.head?_append_of_ne_nil _ nonempty] at opens
    exact opens
  · intro inside
    apply free
    rw [List.drop_append]
    exact List.mem_append_left _ inside

/-- The beginning of a tag without an inner `>` is held. -/
theorem cut_tag_held {s behind : JsString} {tag : Taken Mode Output} (nonempty : s ≠ []) (whole : HeldWhole mode s behind)
    (absent : matchXmlTag parseJsonWithRepair mode s = none)
    (found : matchXmlTag parseJsonWithRepair mode (s ++ behind) = some tag) : startsWithPartialXmlTag s = true := by
  obtain ⟨more,some_more,opens,word⟩ := matchXmlTag_cut parseJsonWithRepair absent found
  have longer : s.length < (s ++ more).length := by
    rw [List.length_append]
    have := List.length_pos_iff.mpr some_more
    omega
  rw [List.head?_append_of_ne_nil _ nonempty] at opens
  rw [partialXmlTag_iff]
  rcases word with ⟨-,free,short⟩ | open_tag
  · refine ⟨opens,by omega,?_⟩
    intro inside
    apply free
    rw [List.dropLast_append_of_ne_nil some_more]
    exact List.mem_append_left _ (List.mem_of_mem_drop inside)
  · obtain ⟨short,free⟩ := whole _ open_tag
    exact ⟨opens,by omega,free longer⟩

theorem consumeXmlTool_append {s behind : JsString} (nonempty : s ≠ []) (whole : HeldWhole mode s behind)
    (decided : consumeXmlTool parseJsonWithRepair mode s = some taken) :
    consumeXmlTool parseJsonWithRepair mode (s ++ behind) = some taken := by
  unfold consumeXmlTool at decided ⊢
  cases found : matchXmlTag parseJsonWithRepair mode s with
  | some tag =>
    rw [found] at decided
    rw [matchXmlTag_append parseJsonWithRepair found behind]
    exact decided
  | none =>
    simp only [found] at decided
    split at decided
    · cases decided
    · rename_i released
      have unmatched : matchXmlTag parseJsonWithRepair mode (s ++ behind) = none := by
        cases later : matchXmlTag parseJsonWithRepair mode (s ++ behind) with
        | none => rfl
        | some tag => exact absurd (cut_tag_held parseJsonWithRepair nonempty whole found later) released
      have released_later : ¬startsWithPartialXmlTag (s ++ behind) = true :=
        fun held => released (partialXmlTag_append nonempty behind held)
      simp only [unmatched, if_neg released_later]
      obtain ⟨ch,rest,rfl⟩ := List.exists_cons_of_ne_nil nonempty
      exact decided

/-- Every decision takes a tag or one unit. -/
theorem matchXmlTag_size (found : matchXmlTag parseJsonWithRepair mode s = some taken) : 0 < taken.size ∧ taken.size ≤ s.length := by
  have positive {word rest : JsString} {size : Nat} (opens : word.head? = some lessThan)
      (same : s = word ++ rest) (is_size : size = word.length) : 0 < size ∧ size ≤ s.length := by
    subst same is_size
    have nonempty : word ≠ [] := by
      rintro rfl
      cases opens
    exact ⟨List.length_pos_iff.mpr nonempty,by simp⟩
  unfold matchXmlTag at found
  cases state : mode.xmlState with
  | idle =>
    simp only [state] at found
    obtain ⟨_,word,rest,spelled,same,size,-⟩ := takeTag_inside (dsmlTag_spells _ _) found
    exact positive (toolCallsOpen_plain spelled).1 same size
  | inSection =>
    simp only [state] at found
    rcases Option.or_eq_some_iff.mp found with closes | ⟨-,opened⟩
    · obtain ⟨_,word,rest,spelled,same,size,-⟩ := takeTag_inside (dsmlTag_spells _ _) closes
      exact positive (toolCallsClose_plain spelled).1 same size
    · obtain ⟨_,word,rest,spelled,same,size,-⟩ := takeTag_inside invokeOpen_spells opened
      exact positive (openTagWord_head (invokeOpenWord_open spelled)) same size
  | invoke name args =>
    simp only [state] at found
    rcases Option.or_eq_some_iff.mp found with closes | ⟨-,opened⟩
    · obtain ⟨_,word,rest,spelled,same,size,-⟩ := takeTag_inside (dsmlTag_spells _ _) closes
      exact positive (invokeClose_plain spelled).1 same size
    · obtain ⟨words,spells,opens⟩ := parameterOpen_spells
      obtain ⟨_,word,rest,spelled,same,size,-⟩ := takeTag_inside spells opened
      exact positive (openTagWord_head (opens _ _ spelled)) same size
  | parameter invokeName args paramName isString value =>
    simp only [state] at found
    obtain ⟨_,word,rest,spelled,same,size,-⟩ := takeTag_inside (dsmlTag_spells _ _) found
    exact positive (parameterClose_plain spelled).1 same size

theorem consumeXmlTool_progress : Progress (consumeXmlTool parseJsonWithRepair) := by
  intro mode s taken nonempty decided
  unfold consumeXmlTool at decided
  cases found : matchXmlTag parseJsonWithRepair mode s with
  | some tag =>
    rw [found] at decided
    cases decided
    exact matchXmlTag_size parseJsonWithRepair found
  | none =>
    simp only [found] at decided
    split at decided
    · cases decided
    · obtain ⟨ch,rest,rfl⟩ := List.exists_cons_of_ne_nil nonempty
      cases decided
      simp

end Repair

end StreamMarkupHealing
