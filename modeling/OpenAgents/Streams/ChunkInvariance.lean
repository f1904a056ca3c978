import OpenAgents.Streams.MergedEvents

/- Healing a stream in chunks and in one piece. -/
namespace StreamMarkupHealing
open JsText JsJson HeldScanner

section Repair
variable (parseJsonWithRepair : JsString → Option Json)

/- No tag is longer than what is held back. -/
def TagsWithinHold (text : JsString) : Prop :=
  ∀ s, s <:+ text → ∀ mode, ∀ n ∈ openTagLength mode s, n ≤ maxXmlPartialHold

/-- Wherever the scanner comes to before the cut, no invoke or parameter tag that it would
    take there and that goes on behind the cut has a `>` before the cut. -/
def SafeCut (before behind : JsString) : Prop :=
  ∀ mode s, Visits (consumeXmlTool parseJsonWithRepair) .initial before mode s →
    ∀ n ∈ openTagLength mode (s ++ behind), s.length < n → greaterThan ∉ s.drop 1

def SafeCuts (before : JsString) : List JsString → Prop
  | [] => True
  | chunk :: rest =>
      SafeCut parseJsonWithRepair before (chunk :: rest).flatten ∧ SafeCuts (before ++ chunk) rest

variable {mode : Mode} {s : JsString} {chunks : List JsString} {pattern : Pattern} {taken : Taken Mode Output}
  {call : HealedToolCall}

theorem openTagLength_append {n : Nat} (found : openTagLength mode s = some n) (behind : JsString) : openTagLength mode (s ++ behind) = some n := by
  obtain ⟨words,spells,-⟩ := parameterOpen_spells
  unfold openTagLength at found ⊢
  cases state : mode.xmlState with
  | idle =>
    rw [state] at found
    cases found
  | parameter =>
    rw [state] at found
    cases found
  | inSection =>
    simp only [state, Option.map_eq_some_iff] at found ⊢
    obtain ⟨⟨name,rest⟩,matched,rfl⟩ := found
    refine ⟨_,invokeOpen_spells.append matched behind,?_⟩
    simp only [List.length_append]
    omega
  | invoke name args =>
    simp only [state, Option.map_eq_some_iff] at found ⊢
    obtain ⟨⟨name,rest⟩,matched,rfl⟩ := found
    refine ⟨_,spells.append matched behind,?_⟩
    simp only [List.length_append]
    omega

theorem safeCut_stable {before chunk later : JsString} (safe : SafeCut parseJsonWithRepair before (chunk ++ later))
    (within : TagsWithinHold (before ++ (chunk ++ later))) :
    StableAt (consumeXmlTool parseJsonWithRepair) .initial before chunk := by
  intro mode s visited taken decided
  obtain ⟨suffix,nonempty⟩ := visited.suffix
  refine consumeXmlTool_append parseJsonWithRepair nonempty ?_ decided
  intro n found
  have longer := openTagLength_append found later
  rw [List.append_assoc] at longer
  obtain ⟨early,rfl⟩ := suffix
  have inside : s ++ (chunk ++ later) <:+ early ++ s ++ (chunk ++ later) := ⟨early,by simp⟩
  exact ⟨within _ inside mode n longer,safe mode s visited n longer⟩

theorem safeCuts_stable : ∀ {before : JsString},
    SafeCuts parseJsonWithRepair before chunks → TagsWithinHold (before ++ chunks.flatten) →
      StableCuts (consumeXmlTool parseJsonWithRepair) .initial before chunks := by
  induction chunks with
  | nil =>
    intro before _ _
    trivial
  | cons chunk rest ih =>
    intro before safe within
    rw [List.flatten_cons] at within
    refine ⟨safeCut_stable parseJsonWithRepair safe.1 within,ih safe.2 ?_⟩
    rw [List.append_assoc]
    exact within

theorem stableCuts_of {decision : Decision CodeUnit Mode Output}
    (stable : ∀ before chunk, StableAt decision mode before chunk) : ∀ before, StableCuts decision mode before chunks := by
  induction chunks with
  | nil =>
    intro before
    trivial
  | cons chunk rest ih =>
    intro before
    exact ⟨stable before chunk,ih (before ++ chunk)⟩

theorem consumeKimi_stable (before chunk : JsString) :
    StableAt (consumeKimi parseJsonWithRepair) .initial before chunk := by
  intro mode s visited taken decided
  exact consumeKimi_append parseJsonWithRepair visited.suffix.2 decided chunk

theorem consumePlainThinking_stable (before chunk : JsString) :
    StableAt consumePlainThinking .initial before chunk := by
  intro mode s visited taken decided
  have known : KnownCloseTag mode :=
    visited.keeps (fun _ _ _ => consumePlainThinking_known) (by simp [KnownCloseTag, Mode.initial])
  exact consumePlainThinking_append visited.suffix.2 known decided chunk

/- The condition on the cuts, which only the tags with quoted names need. -/
def CutsHold (pattern : Pattern) (chunks : List JsString) : Prop :=
  pattern = .dsml → SafeCuts parseJsonWithRepair [] chunks

theorem consume_progress (pattern : Pattern) : Progress (consume parseJsonWithRepair pattern) := by
  cases pattern with
  | kimi => exact consumeKimi_progress parseJsonWithRepair
  | dsml => exact consumeXmlTool_progress parseJsonWithRepair
  | thinking => exact consumePlainThinking_progress

theorem consume_stable (within : TagsWithinHold chunks.flatten) (cuts : CutsHold parseJsonWithRepair pattern chunks) :
    StableCuts (consume parseJsonWithRepair pattern) .initial [] chunks := by
  cases pattern with
  | kimi => exact stableCuts_of (consumeKimi_stable parseJsonWithRepair) []
  | dsml => exact safeCuts_stable parseJsonWithRepair (cuts rfl) within
  | thinking => exact stableCuts_of consumePlainThinking_stable []

/- Feeding -/

def KeptMode (pattern : Pattern) (mode : Mode) : Prop := pattern ≠ .thinking → OutsideThinking mode

theorem consume_suits (mode : Mode) (s : JsString) (taken : Taken Mode Output) (kept : KeptMode pattern mode)
    (decided : consume parseJsonWithRepair pattern mode s = some taken) :
    KeptMode pattern taken.mode ∧ Suits mode taken.output taken.mode := by
  cases pattern with
  | kimi =>
    obtain ⟨outside,suits⟩ := consumeKimi_suits parseJsonWithRepair (kept (by decide)) decided
    exact ⟨fun _ => outside,suits⟩
  | dsml =>
    obtain ⟨outside,suits⟩ := consumeXmlTool_suits parseJsonWithRepair (kept (by decide)) decided
    exact ⟨fun _ => outside,suits⟩
  | thinking => exact ⟨fun other => absurd rfl other,consumePlainThinking_suits decided⟩

/-- The chunks go through the scanner, and their events are those of its outputs. -/
theorem feedAll_scan (nonempty : ∀ chunk ∈ chunks, chunk ≠ []) :
    ∀ (buffer : JsString) {mode : Mode}, KeptMode pattern mode →
      let fed := feedChunks (consume parseJsonWithRepair pattern) mode buffer chunks
      let healed := (Healing.mk pattern buffer mode).feedAll parseJsonWithRepair chunks
      healed.1 = ⟨pattern,fed.rest,fed.mode⟩ ∧
        SameMerged healed.2 (fed.outputs.flatMap Output.events) := by
  induction chunks with
  | nil =>
    intro buffer mode _
    exact ⟨rfl,SameMerged.refl []⟩
  | cons chunk rest ih =>
    intro buffer mode kept
    have some_text : ¬chunk.length = 0 := by
      have := nonempty chunk List.mem_cons_self
      rwa [List.length_eq_zero_iff]
    have scanned := scan_scans (consume_progress parseJsonWithRepair pattern) mode (buffer ++ chunk)
    have kept_after : KeptMode pattern (scan (consume parseJsonWithRepair pattern) mode (buffer ++ chunk)).mode :=
      scanned.keeps (fun m s taken kept decided => (consume_suits parseJsonWithRepair m s taken kept decided).1) kept
    have collected := collectEvents_scan (consume_suits parseJsonWithRepair) scanned kept
    obtain ⟨state,events⟩ := ih (fun c mem => nonempty c (List.mem_cons_of_mem chunk mem))
      (scan (consume parseJsonWithRepair pattern) mode (buffer ++ chunk)).rest kept_after
    simp only [Healing.feedAll, Healing.feedEvents, if_neg some_text, feedChunks, List.flatMap_append]
    exact ⟨state,collected.append events⟩

theorem initial_kept (pattern : Pattern) : KeptMode pattern .initial := fun _ => rfl

theorem healedEvents_scan (nonempty : ∀ chunk ∈ chunks, chunk ≠ []) (within : TagsWithinHold chunks.flatten)
    (cuts : CutsHold parseJsonWithRepair pattern chunks) :
    let scanned := scan (consume parseJsonWithRepair pattern) .initial chunks.flatten
    SameMerged (healedEvents parseJsonWithRepair pattern chunks)
      (scanned.outputs.flatMap Output.events ++
        (Healing.mk pattern scanned.rest scanned.mode).flushEvents.2) := by
  obtain ⟨state,events⟩ := feedAll_scan parseJsonWithRepair nonempty [] (initial_kept pattern)
  have stable := consume_stable parseJsonWithRepair within cuts
  rw [feedChunks_eq_scan (consume_progress parseJsonWithRepair pattern) stable] at state events
  have start : Healing.start pattern = ⟨pattern,[],.initial⟩ := rfl
  simp only [healedEvents, start]
  rw [state]
  exact events.append (SameMerged.refl _)

/- Unit by unit -/

def PlainName (name : JsString) : Prop := greaterThan ∉ name

/- The call being read has a name without `>`. -/
def PlainNames (mode : Mode) : Prop :=
  match mode.xmlState with
  | .invoke name _ => PlainName name
  | .parameter invokeName _ _ _ _ => PlainName invokeName
  | _ => True

def PlainCall (output : Output) : Prop := ∀ call, output = .toolCall call → PlainName call.name

theorem plainName_trim {name : JsString} (plain : PlainName name) : PlainName (trim name) := by
  intro inside
  apply plain
  have started : greaterThan ∈ trimStart name := (List.rdropWhile_prefix isWhitespace _).subset inside
  exact (List.dropWhile_suffix isWhitespace).subset started

/-- Units up to the last, without `>`, spell no name with one. -/
theorem plainName_of_openTag {name word rest : JsString} (opens : OpenTagWord name word)
    (free : greaterThan ∉ (word ++ rest).dropLast) : PlainName name := by
  obtain ⟨-,before,behind,rfl,-⟩ := opens
  intro inside
  apply free
  have shape : before ++ name ++ behind ++ [greaterThan] ++ rest =
      before ++ name ++ (behind ++ [greaterThan] ++ rest) := by simp
  rw [shape, List.dropLast_append_of_ne_nil (by simp)]
  exact List.mem_append_left _ (List.mem_append_right _ inside)

theorem matchXmlTag_plain (plain : PlainNames mode) (free : greaterThan ∉ s.dropLast)
    (found : matchXmlTag parseJsonWithRepair mode s = some taken) : PlainNames taken.mode ∧ PlainCall taken.output := by
  unfold matchXmlTag at found
  unfold PlainNames at plain
  have quiet : PlainCall .nothing := by
    intro call other
    cases other
  cases state : mode.xmlState with
  | idle =>
    simp only [state] at found
    obtain ⟨_,same⟩ := takeTag_after found
    obtain ⟨same_mode,same_output⟩ := Prod.mk.inj same
    rw [same_mode, same_output]
    exact ⟨trivial,quiet⟩
  | inSection =>
    simp only [state] at found
    rcases Option.or_eq_some_iff.mp found with closes | ⟨-,opened⟩
    · obtain ⟨_,same⟩ := takeTag_after closes
      obtain ⟨same_mode,same_output⟩ := Prod.mk.inj same
      rw [same_mode, same_output]
      exact ⟨trivial,quiet⟩
    · obtain ⟨name,word,rest,spelled,rfl,-,same⟩ := takeTag_inside invokeOpen_spells opened
      obtain ⟨same_mode,same_output⟩ := Prod.mk.inj same
      rw [same_mode, same_output]
      exact ⟨plainName_of_openTag (invokeOpenWord_open spelled) free,quiet⟩
  | invoke name args =>
    simp only [state] at found plain
    rcases Option.or_eq_some_iff.mp found with closes | ⟨-,opened⟩
    · obtain ⟨_,same⟩ := takeTag_after closes
      obtain ⟨same_mode,same_output⟩ := Prod.mk.inj same
      rw [same_mode, same_output]
      refine ⟨trivial,?_⟩
      intro call is_call
      cases is_call
      exact plainName_trim plain
    · obtain ⟨_,same⟩ := takeTag_after opened
      obtain ⟨same_mode,same_output⟩ := Prod.mk.inj same
      rw [same_mode, same_output]
      exact ⟨plain,quiet⟩
  | parameter invokeName args paramName isString value =>
    simp only [state] at found plain
    obtain ⟨_,same⟩ := takeTag_after found
    obtain ⟨same_mode,same_output⟩ := Prod.mk.inj same
    rw [same_mode, same_output]
    exact ⟨plain,quiet⟩

theorem passXmlUnit_plain (plain : PlainNames mode) (ch : CodeUnit) :
    PlainNames (passXmlUnit mode ch).1 ∧ PlainCall (passXmlUnit mode ch).2 := by
  have quiet : PlainCall .nothing := by
    intro call other
    cases other
  have text : PlainCall (.clean [ch]) := by
    intro call other
    cases other
  cases state : mode.xmlState with
  | idle =>
    simp only [passXmlUnit, state]
    exact ⟨plain,text⟩
  | inSection =>
    simp only [passXmlUnit, state]
    exact ⟨plain,quiet⟩
  | invoke name args =>
    simp only [passXmlUnit, state]
    exact ⟨plain,quiet⟩
  | parameter invokeName args paramName isString value =>
    rw [PlainNames, state] at plain
    by_cases long : value.length ≥ maxXmlParamValueLength
    · simp only [passXmlUnit, state, if_pos long]
      exact ⟨trivial,quiet⟩
    · simp only [passXmlUnit, state, if_neg long]
      exact ⟨plain,quiet⟩

theorem consumeXmlTool_plain (plain : PlainNames mode) (free : greaterThan ∉ s.dropLast)
    (decided : consumeXmlTool parseJsonWithRepair mode s = some taken) : PlainNames taken.mode ∧ PlainCall taken.output := by
  unfold consumeXmlTool at decided
  cases found : matchXmlTag parseJsonWithRepair mode s with
  | some tag =>
    rw [found] at decided
    cases decided
    exact matchXmlTag_plain parseJsonWithRepair plain free found
  | none =>
    simp only [found] at decided
    split at decided
    · cases decided
    · cases s with
      | nil => cases decided
      | cons ch rest =>
        cases decided
        exact passXmlUnit_plain plain ch

/-- What a scan holds back has no `>`, and neither has the name of any call. -/
theorem scan_plain {scanned : Scan CodeUnit Mode Output} (run : Scans (consumeXmlTool parseJsonWithRepair) mode s scanned)
    (plain : PlainNames mode) (free : greaterThan ∉ s.dropLast) :
    PlainNames scanned.mode ∧ PlainName scanned.rest ∧ ∀ output ∈ scanned.outputs, PlainCall output := by
  induction run with
  | empty mode => exact ⟨plain,List.not_mem_nil,by simp⟩
  | hold mode s held =>
    refine ⟨plain,?_,by simp⟩
    unfold consumeXmlTool at held
    cases found : matchXmlTag parseJsonWithRepair mode s with
    | some tag => simp [found] at held
    | none =>
      simp only [found] at held
      split at held
      · rename_i partially
        obtain ⟨opens,-,free⟩ := partialXmlTag_iff.mp partially
        cases s with
        | nil => cases opens
        | cons ch rest =>
          cases opens
          intro inside
          rcases List.mem_cons.mp inside with same | later
          · revert same
            decide
          · exact free later
      · cases s with
        | nil => exact List.not_mem_nil
        | cons ch rest => cases held
  | take mode s taken after nonempty decided rest ih =>
    obtain ⟨plain_after,plain_call⟩ := consumeXmlTool_plain parseJsonWithRepair plain free decided
    have free_after : greaterThan ∉ (s.drop taken.size).dropLast := by
      rw [List.dropLast_drop_eq_drop_dropLast]
      exact fun inside => free (List.mem_of_mem_drop inside)
    obtain ⟨last_mode,last_rest,calls⟩ := ih plain_after free_after
    refine ⟨last_mode,last_rest,?_⟩
    intro output mem
    rcases List.mem_cons.mp mem with rfl | later
    · exact plain_call
    · exact calls output later

theorem feedUnits_plain {text : JsString} : ∀ (buffer : JsString) (mode : Mode), PlainNames mode →
    PlainName buffer →
    ∀ output ∈ (feedChunks (consumeXmlTool parseJsonWithRepair) mode buffer (text.map ([·]))).outputs,
      PlainCall output := by
  induction text with
  | nil =>
    intro buffer mode _ _ output mem
    cases mem
  | cons ch rest ih =>
    intro buffer mode plain free output mem
    have scanned := scan_scans (consumeXmlTool_progress parseJsonWithRepair) mode (buffer ++ [ch])
    obtain ⟨plain_after,free_after,calls⟩ := scan_plain parseJsonWithRepair scanned plain
      (by rw [List.dropLast_concat]; exact free)
    rw [List.map_cons, feedChunks, List.mem_append] at mem
    rcases mem with early | later
    · exact calls output early
    · exact ih _ _ plain_after free_after output later

/-- Calls are never merged. -/
theorem call_mem_merge {events : List Event} : .toolCall call ∈ mergeEvents events ↔ .toolCall call ∈ events := by
  have push (event : Event) (rest : List Event) :
      .toolCall call ∈ pushEvent event rest ↔ .toolCall call = event ∨ .toolCall call ∈ rest := by
    unfold pushEvent
    split
    · simp
    · simp
    · simp
  induction events with
  | nil => rfl
  | cons event rest ih =>
    have merged : mergeEvents (event :: rest) = pushEvent event (mergeEvents rest) := rfl
    rw [merged]
    exact (push event _).trans ((or_congr Iff.rfl ih).trans List.mem_cons.symm)

theorem flush_has_no_call (h : Healing) (call : HealedToolCall) : .toolCall call ∉ h.flushEvents.2 := by
  have no_text (text : JsString) : Event.toolCall call ∉ textEvents text := by
    unfold textEvents
    split <;> simp
  have no_thinking (text : JsString) : Event.toolCall call ∉ thinkingEvents text := by
    unfold thinkingEvents
    split <;> simp
  unfold Healing.flushEvents
  cases h.pattern with
  | kimi =>
    simp only
    split
    · exact List.not_mem_nil
    · exact no_text _
  | dsml =>
    simp only
    split
    · exact List.not_mem_nil
    · exact no_text _
  | thinking =>
    simp only
    split
    · exact no_thinking _
    · exact no_text _

/-- Fed unit by unit, no call with a `>` in its name is ever read. -/
theorem units_plain {text : JsString} (mem : .toolCall call ∈ healedEvents parseJsonWithRepair .dsml (text.map ([·]))) : PlainName call.name := by
  have nonempty : ∀ chunk ∈ text.map ([·]), chunk ≠ [] := by simp
  obtain ⟨-,events⟩ := feedAll_scan parseJsonWithRepair nonempty [] (initial_kept .dsml)
  have start : Healing.start .dsml = ⟨.dsml,[],.initial⟩ := rfl
  rw [healedEvents, start] at mem
  rcases List.mem_append.mp mem with fed | flushed
  · rw [← call_mem_merge, SameMerged.merge events, call_mem_merge, List.mem_flatMap] at fed
    obtain ⟨output,put,made⟩ := fed
    have plain := feedUnits_plain parseJsonWithRepair [] .initial trivial List.not_mem_nil output put
    cases output with
    | toolCall other =>
      rw [Output.events, List.mem_singleton] at made
      cases made
      exact plain call rfl
    | clean text =>
      rw [Output.events, textEvents] at made
      split at made <;> simp at made
    | thinking text =>
      rw [Output.events, thinkingEvents] at made
      split at made <;> simp at made
    | nothing => cases made
    | flushClean => cases made
    | flushThinking => cases made
  · exact absurd flushed (flush_has_no_call _ call)

/- Results -/

theorem healedEvents_empty (pattern : Pattern) :
    healedEvents parseJsonWithRepair pattern [[]] = healedEvents parseJsonWithRepair pattern [] := rfl

theorem chunks_heal_as_one (nonempty : ∀ chunk ∈ chunks, chunk ≠ []) (within : TagsWithinHold chunks.flatten)
    (cuts : CutsHold parseJsonWithRepair pattern chunks) :
    mergeEvents (healedEvents parseJsonWithRepair pattern chunks) =
      mergeEvents (healedEvents parseJsonWithRepair pattern [chunks.flatten]) := by
  cases text : chunks.flatten with
  | nil =>
    have none_left : chunks = [] := by
      cases chunks with
      | nil => rfl
      | cons chunk rest =>
        rw [List.flatten_cons, List.append_eq_nil_iff] at text
        exact absurd text.1 (nonempty chunk List.mem_cons_self)
    rw [none_left, healedEvents_empty]
  | cons ch rest =>
    rw [← text]
    have one_piece : ∀ chunk ∈ [chunks.flatten], chunk ≠ [] := by simp [text]
    have flat : [chunks.flatten].flatten = chunks.flatten := List.flatten_singleton
    have whole_cut : CutsHold parseJsonWithRepair pattern [chunks.flatten] := by
      refine fun _ => ⟨?_,trivial⟩
      intro mode s visited
      obtain ⟨⟨_,empty⟩,some_text⟩ := visited.suffix
      exact absurd (List.append_eq_nil_iff.mp empty).2 some_text
    have split := healedEvents_scan parseJsonWithRepair nonempty within cuts
    have whole := healedEvents_scan parseJsonWithRepair one_piece (by rw [flat]; exact within) whole_cut
    rw [flat] at whole
    exact (split.merge).trans (whole.merge).symm

theorem healing_chunk_invariant (pattern : Pattern) {chunks : List JsString}
    (nonempty : ∀ chunk ∈ chunks, chunk ≠ []) (within : TagsWithinHold chunks.flatten) :
    (CutsHold parseJsonWithRepair pattern chunks →
      mergeEvents (healedEvents parseJsonWithRepair pattern chunks) =
        mergeEvents (healedEvents parseJsonWithRepair pattern [chunks.flatten])) ∧
    ∀ call, .toolCall call ∈ healedEvents parseJsonWithRepair .dsml [chunks.flatten] → ¬PlainName call.name →
      mergeEvents (healedEvents parseJsonWithRepair .dsml (chunks.flatten.map ([·]))) ≠
        mergeEvents (healedEvents parseJsonWithRepair .dsml [chunks.flatten]) := by
  refine ⟨chunks_heal_as_one parseJsonWithRepair nonempty within,?_⟩
  intro call made inner same
  rw [← call_mem_merge, ← same, call_mem_merge] at made
  exact inner (units_plain parseJsonWithRepair made)

end Repair

theorem openTagLength_le {mode : Mode} {s : JsString} {n : Nat} (found : openTagLength mode s = some n) :
    n ≤ s.length := by
  unfold openTagLength at found
  cases state : mode.xmlState with
  | idle => simp [state] at found
  | parameter => simp [state] at found
  | inSection =>
    simp only [state, Option.map_eq_some_iff] at found
    obtain ⟨_,-,rfl⟩ := found
    exact Nat.sub_le _ _
  | invoke name args =>
    simp only [state, Option.map_eq_some_iff] at found
    obtain ⟨_,-,rfl⟩ := found
    exact Nat.sub_le _ _

theorem short_tags {text : JsString} (short : text.length ≤ maxXmlPartialHold) : TagsWithinHold text := by
  intro s suffix mode n found
  exact (openTagLength_le found).trans (suffix.length_le.trans short)

/- A call whose name has a `>` inside. -/
def callAfter (start : JsString) : JsString :=
  start ++ js "b\"></|DSML|invoke></|DSML|tool_calls>"

def callBefore : JsString := js "<|DSML|tool_calls><|DSML|invoke name=\"a>"

/-- Cut in its first tag the call is read, but not unit by unit. -/
theorem healing_chunk_invariant_firstTag :
    let chunks := [callBefore.take 10, callAfter (callBefore.drop 10)]
    mergeEvents (healedEvents (fun _ => none) .dsml chunks) = [.toolCall ⟨js "a>b",js "\x7b\x7d"⟩] ∧
      mergeEvents (healedEvents (fun _ => none) .dsml (chunks.flatten.map ([·]))) ≠
        mergeEvents (healedEvents (fun _ => none) .dsml [chunks.flatten]) := by
  intro chunks
  have nonempty : ∀ chunk ∈ chunks, chunk ≠ [] := by decide
  have within : TagsWithinHold chunks.flatten := short_tags (by decide)
  obtain ⟨as_one,apart⟩ := healing_chunk_invariant (fun _ => none) .dsml nonempty within
  have whole : healedEvents (fun _ => none) .dsml [chunks.flatten] =
      [.toolCall ⟨js "a>b",js "\x7b\x7d"⟩] := by decide +kernel
  have no_cut : ∀ behind, SafeCut (fun _ => none) [] behind := by
    intro behind mode s visited
    obtain ⟨⟨_,empty⟩,some_text⟩ := visited.suffix
    exact absurd (List.append_eq_nil_iff.mp empty).2 some_text
  have before_any : ∀ behind, SafeCut (fun _ => none) (callBefore.take 10) behind := by
    intro behind mode s visited n _ _ inside
    have free : greaterThan ∉ callBefore.take 10 := by decide
    exact free (visited.suffix.1.subset (List.mem_of_mem_drop inside))
  refine ⟨?_,?_⟩
  · rw [as_one fun _ => ⟨no_cut _,before_any _,trivial⟩, whole]
    rfl
  · refine apart ⟨js "a>b",js "\x7b\x7d"⟩ ?_ ?_
    · rw [whole]
      exact List.mem_singleton_self _
    · unfold PlainName
      decide

theorem cut_name_loses_call :
    let chunks := [callBefore, callAfter []]
    (∀ chunk ∈ chunks, chunk ≠ []) ∧ TagsWithinHold chunks.flatten ∧
      mergeEvents (healedEvents (fun _ => none) .dsml chunks) = [] ∧
      mergeEvents (healedEvents (fun _ => none) .dsml [chunks.flatten]) =
        [.toolCall ⟨js "a>b",js "\x7b\x7d"⟩] :=
  ⟨by decide,short_tags (by decide),by decide +kernel,by decide +kernel⟩

end StreamMarkupHealing
