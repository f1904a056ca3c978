import OpenAgents.Hashline.HeaderPath
import OpenAgents.Hashline.HeaderText

/- A formatted file header and a hunk, split again. -/
namespace Hashline
open JsText BacktrackingRegex

def hexDigits : JsString := js "0123456789ABCDEF"

/- A tag in the form that `computeFileHash` gives it. -/
def IsTag (tag : JsString) : Prop := tag.length = fileHashLength ∧ ∀ c ∈ tag, c ∈ hexDigits

/-- Hunk headers, body rows and blank lines, at least one of them a header. -/
structure ValidHunk (hunk : JsString) : Prop where
  rows : ∀ row ∈ splitRows hunk, classifyKind row = .blank ∨ (∃ target, classifyKind row = .opBlock target) ∨
    ∃ text, classifyKind row = .payloadLiteral text
  header : ∃ row ∈ splitRows hunk, ∃ target, classifyKind row = .opBlock target

theorem hexDigits_units : ∀ c ∈ hexDigits, isHexDigitCode c = true ∧ isWhitespace c = false ∧
    isWhitespaceCode c = false ∧ upperHex c = c ∧ c ≠ headerColon ∧ c ≠ lineFeed ∧ c ≠ carriageReturn := by
  have each : hexDigits.all (fun c => isHexDigitCode c && !isWhitespace c && !isWhitespaceCode c && upperHex c == c &&
      c != headerColon && c != lineFeed && c != carriageReturn) = true := by decide
  intro c mem
  simpa [and_assoc] using List.all_eq_true.mp each c mem

theorem header_text (path tag : JsString) : formatHashlineHeader path tag = 182 :: (path ++ 35 :: tag) := by
  have sigil : filePrefix = [182] := by decide
  have sep : fileHashSep = [35] := by decide
  simp [formatHashlineHeader, sigil, sep]

theorem tag_last {tag : JsString} (isTag : IsTag tag) : ∃ early c, tag = early ++ [c] ∧ c ∈ hexDigits := by
  rcases List.eq_nil_or_concat tag with rfl | ⟨early,c,rfl⟩
  · exact absurd isTag.1 (by decide)
  · exact ⟨early,c,by simp,isTag.2 c (by simp)⟩

variable {p : CodeUnit → Bool} {early : JsString} {c : CodeUnit}

/-- A text that ends in a visible unit. -/
theorem rdrop_visible (visible : p c = false) : (early ++ [c]).rdropWhile p = early ++ [c] :=
  List.rdropWhile_concat_neg _ _ _ (by simp [visible])

theorem drop_visible (visible : p c = false) : (early ++ [c]).dropWhile p ≠ [] := by
  intro none
  have all := List.dropWhile_eq_nil_iff.mp none c (by simp)
  rw [visible] at all
  exact absurd all (by decide)

section header
variable {path tag : JsString}

theorem header_ends (isTag : IsTag tag) (text : JsString) : ∃ early c, text ++ 35 :: tag = early ++ [c] ∧ c ∈ hexDigits := by
  obtain ⟨early,c,rfl,digit⟩ := tag_last isTag
  exact ⟨text ++ 35 :: early,c,by simp,digit⟩

theorem header_trimEnd (isTag : IsTag tag) (text : JsString) : trimEnd (text ++ 35 :: tag) = text ++ 35 :: tag := by
  obtain ⟨early,c,ends,digit⟩ := header_ends isTag text
  rw [ends]
  exact rdrop_visible (hexDigits_units c digit).2.1

theorem header_untilTrimEnd (isTag : IsTag tag) (text : JsString) : untilTrimEnd (text ++ 35 :: tag) = text ++ 35 :: tag := by
  obtain ⟨early,c,ends,digit⟩ := header_ends isTag text
  rw [ends]
  exact rdrop_visible (hexDigits_units c digit).2.2.1

theorem header_kept (isTag : IsTag tag) : trimEnd (formatHashlineHeader path tag) = formatHashlineHeader path tag := by
  rw [header_text]
  exact header_trimEnd isTag (182 :: path)

theorem header_prefixed (path tag : JsString) : startsWith (formatHashlineHeader path tag) filePrefix = true := by
  have sigil : filePrefix = [182] := by decide
  rw [header_text, sigil]
  rfl

theorem tag_upper (isTag : IsTag tag) : tag.map upperHex = tag := by
  have each : ∀ c ∈ tag, upperHex c = c := fun c mem => (hexDigits_units c (isTag.2 c mem)).2.2.2.1
  exact (List.map_congr_left each).trans (List.map_id tag)

/-- The strict form: a path without its separators. -/
theorem strict_header (isTag : IsTag tag) (nonempty : path ≠ []) (unbroken : ∀ c ∈ path, isPathEnd c = false) :
    tryParseHeader (formatHashlineHeader path tag) = some ⟨path,some tag⟩ := by
  have sigil : filePrefix = [182] := by decide
  have kept : untilTrimEnd (182 :: (path ++ 35 :: tag)) = 182 :: (path ++ 35 :: tag) :=
    header_untilTrimEnd isTag (182 :: path)
  have inPath : ∀ c ∈ path, (!isPathEnd c) = true := by
    intro c mem
    simp [unbroken c mem]
  have stop : (!isPathEnd 35) = false := by decide
  have taken : (path ++ 35 :: tag).takeWhile (!isPathEnd ·) = path := by
    rw [List.takeWhile_append_of_pos inPath]
    simp [stop]
  have left : (path ++ 35 :: tag).dropWhile (!isPathEnd ·) = 35 :: tag := by
    rw [List.dropWhile_append_of_pos inPath]
    simp [stop]
  have hash : tag.take fileHashLength = tag := List.take_of_length_le (by rw [isTag.1])
  have after : tag.drop fileHashLength = [] := List.drop_of_length_le (by rw [isTag.1])
  have hex : tag.any (!isHexDigitCode ·) = false := by
    rw [List.any_eq_false]
    intro c mem
    simp [(hexDigits_units c (isTag.2 c mem)).1]
  rw [header_text]
  simp only [tryParseHeader, sigil, startsWith, List.isPrefixOf, BEq.rfl, Bool.true_and, if_true, kept]
  simp only [List.length_singleton, List.drop_succ_cons, List.drop_zero, taken, left, hash, after, hex, tag_upper isTag]
  simp [nonempty, isTag.1, skipWhitespace]

theorem skip_visible (isTag : IsTag tag) (text : JsString) : (skipWhitespace (text ++ 35 :: tag)).isEmpty = false := by
  obtain ⟨early,c,ends,digit⟩ := header_ends isTag text
  rw [ends, List.isEmpty_eq_false_iff]
  exact drop_visible (hexDigits_units c digit).2.2.1

theorem skip_visible_after (isTag : IsTag tag) (text : JsString) :
    (skipWhitespace ((text ++ 35 :: tag).drop fileHashLength)).isEmpty = false := by
  obtain ⟨early,c,ends,digit⟩ := header_ends isTag text
  have lengths := congrArg List.length ends
  simp only [List.length_append, List.length_cons, List.length_nil, isTag.1] at lengths
  rw [ends, List.drop_append_of_le_length (by omega), List.isEmpty_eq_false_iff]
  exact drop_visible (hexDigits_units c digit).2.2.1

/-- With a separator in the path the strict form is not found. -/
theorem strict_refused (isTag : IsTag tag) (broken : ∃ c ∈ path, isPathEnd c = true) :
    tryParseHeader (formatHashlineHeader path tag) = none := by
  have sigil : filePrefix = [182] := by decide
  have kept : untilTrimEnd (182 :: (path ++ 35 :: tag)) = 182 :: (path ++ 35 :: tag) :=
    header_untilTrimEnd isTag (182 :: path)
  have left : ∃ c late, path.dropWhile (!isPathEnd ·) = c :: late := by
    obtain ⟨c,mem,cut⟩ := broken
    cases dropped : path.dropWhile (!isPathEnd ·) with
    | nil =>
      have clean := List.dropWhile_eq_nil_iff.mp dropped c mem
      rw [cut] at clean
      exact absurd clean (by decide)
    | cons d late => exact ⟨d,late,rfl⟩
  obtain ⟨c,late,dropped⟩ := left
  have rest : (path ++ 35 :: tag).dropWhile (!isPathEnd ·) = c :: (late ++ 35 :: tag) := by
    rw [List.dropWhile_append, dropped]
    rfl
  rw [header_text]
  simp only [tryParseHeader, sigil, startsWith, List.isPrefixOf, BEq.rfl, Bool.true_and, if_true, kept,
    List.length_singleton, List.drop_succ_cons, List.drop_zero, rest, skip_visible_after isTag late]
  have more : (skipWhitespace (c :: (late ++ 35 :: tag))).isEmpty = false := skip_visible isTag (c :: late)
  simp only [more, Bool.false_eq_true, if_false, ite_self]

end header

variable {tag : JsString}

theorem headerTail_tag (isTag : IsTag tag) : headerTail (35 :: tag) = some (some tag) := by
  have taken : tag.take fileHashLength = tag := List.take_of_length_le (by rw [isTag.1])
  have after : tag.drop fileHashLength = [] := List.drop_of_length_le (by rw [isTag.1])
  have hex : tag.all isHexDigitCode = true := by
    rw [List.all_eq_true]
    exact fun c mem => (hexDigits_units c (isTag.2 c mem)).1
  simp [headerTail, taken, after, hex, isTag.1]

/-- More of the path is still to come. -/
theorem headerTail_early (isTag : IsTag tag) (c : CodeUnit) (more : JsString) :
    headerTail (c :: (more ++ 35 :: tag)) = none := by
  have visible : ∀ (early : JsString) (d : CodeUnit), d ∈ hexDigits → (early ++ [d]).all isWhitespace = false := by
    intro early d digit
    rw [List.all_eq_false]
    exact ⟨d,by simp,by simp [(hexDigits_units d digit).2.1]⟩
  obtain ⟨early,d,ends,digit⟩ := header_ends isTag (c :: more)
  rw [List.cons_append] at ends
  have lengths := congrArg List.length ends
  simp only [List.length_append, List.length_cons, List.length_nil, isTag.1] at lengths
  have behind : ((early ++ [d]).drop (fileHashLength + 1)).all isWhitespace = false := by
    rw [List.drop_append_of_le_length (by omega)]
    exact visible _ d digit
  rw [ends, headerTail]
  simp only [behind, visible early d digit, Bool.and_false, Bool.false_eq_true, if_false]

theorem shortestPath_header (isTag : IsTag tag) (taken : JsString) {part : JsString} (nonempty : part ≠ [])
    (clean : ∀ c ∈ part, isWhitespace c = false) :
    shortestPath taken (part ++ 35 :: tag) = some ⟨taken ++ part,some tag⟩ := by
  induction part generalizing taken with
  | nil => exact absurd rfl nonempty
  | cons c part ih =>
    have visible := clean c List.mem_cons_self
    cases part with
    | nil => simp [shortestPath, visible, headerTail_tag isTag]
    | cons d part =>
      have later := ih (taken ++ [c]) (by simp) fun e mem => clean e (List.mem_cons_of_mem _ mem)
      rw [List.cons_append, shortestPath, visible, List.cons_append, headerTail_early isTag d part]
      simp only [Bool.false_eq_true, if_false]
      rw [← List.cons_append, later]
      simp

/-- A line that begins with the sigil is a header or it is raw. -/
theorem classify_sigil (tail : JsString) : classifyKind (182 :: tail) =
    match tryParseHeader (182 :: tail) with
    | some header => .header header.path header.fileHash
    | none => .raw (182 :: tail) := by
  have noLead := no_hunk_lead tail (c := 182) (by decide) (by decide) (by decide) (by decide)
  have other : ((182 : CodeUnit) == payloadReplace) = false := by decide
  rw [classify_unled (by decide) noLead]
  simp only [classifyPlain, other, Bool.false_eq_true, if_false] <;> rfl

theorem header_kinds (path tag : JsString) : classifyKind (formatHashlineHeader path tag) ≠ .envelopeBegin ∧
    classifyKind (formatHashlineHeader path tag) ≠ .envelopeEnd ∧
    classifyKind (formatHashlineHeader path tag) ≠ .abort := by
  rw [header_text, classify_sigil]
  cases tryParseHeader (182 :: (path ++ 35 :: tag)) with
  | none => simp
  | some header => simp

/-- The shortest path, when one is found with a tag, is what stands before the tag. -/
theorem shortestPath_tagged {taken body : JsString} {found : FileHeader} (ran : shortestPath taken body = some found)
    (tagged : found.fileHash = some tag) :
    ∃ part rest, found.path = taken ++ part ∧ body = part ++ rest ∧ fileHashLength < rest.length ∧
      rest.head? = some 35 ∧ tag = rest.tail.take fileHashLength ∧ ∀ c ∈ part, isWhitespace c = false := by
  induction body generalizing taken with
  | nil => simp [shortestPath] at ran
  | cons c body ih =>
    simp only [shortestPath] at ran
    by_cases blank : isWhitespace c = true
    · simp [blank] at ran
    · have visible : isWhitespace c = false := by simpa using blank
      simp only [visible, Bool.false_eq_true, if_false] at ran
      cases tail : headerTail body with
      | none =>
        rw [tail] at ran
        obtain ⟨part,rest,path,text,more,sep,hash,clean⟩ := ih ran
        refine ⟨c :: part,rest,by simp [path],by simp [text],more,sep,hash,?_⟩
        intro d mem
        rcases List.mem_cons.mp mem with rfl | among
        · exact visible
        · exact clean d among
      | some fileHash =>
        rw [tail] at ran
        cases ran
        obtain rfl : fileHash = some tag := tagged
        unfold headerTail at tail
        dsimp only at tail
        split at tail
        · rename_i form
          simp only [Bool.and_eq_true, decide_eq_true_eq, beq_iff_eq, List.length_take, List.length_tail] at form
          cases tail
          have width : fileHashLength = 4 := rfl
          exact ⟨[c],body,rfl,rfl,by omega,form.1.1.1,rfl,by simpa using visible⟩
        · split at tail
          · simp at tail
          · simp at tail

/-- A path that a header can carry. -/
structure CarriedPath (np : NodePath) (cwd : Option JsString) (path : JsString) : Prop where
  plain : PlainPath np cwd path
  spaceless : 32 ∉ path
  tabless : 9 ∉ path
  hashed : 35 ∈ path → ∀ c ∈ path, isWhitespace c = false

section line
variable {np : NodePath} (cwd : Option JsString) {path tag : JsString}

theorem header_line_strict (isTag : IsTag tag) (nonempty : path ≠ []) (unbroken : ∀ c ∈ path, isPathEnd c = false) :
    parseHashlineHeaderLine np cwd (formatHashlineHeader path tag) =
      if (normalizeHashlinePath np cwd path).isEmpty then .error emptyHeader
      else .ok (some ⟨normalizeHashlinePath np cwd path,some tag,[]⟩) := by
  have strict := strict_header isTag nonempty unbroken
  have kind : classifyKind (formatHashlineHeader path tag) = .header path (some tag) := by
    rw [header_text] at strict ⊢
    rw [classify_sigil, strict]
  simp only [parseHashlineHeaderLine, header_kept isTag, header_prefixed, kind, if_true]

theorem header_line_recovered (isTag : IsTag tag) (broken : ∃ c ∈ path, isPathEnd c = true) :
    parseHashlineHeaderLine np cwd (formatHashlineHeader path tag) =
      match tryParseRecoveryHeader np cwd (formatHashlineHeader path tag) with
      | some recovered => .ok (some recovered)
      | none => .error (malformedHeader (formatHashlineHeader path tag)) := by
  have refused := strict_refused isTag broken
  have kind : classifyKind (formatHashlineHeader path tag) = .raw (formatHashlineHeader path tag) := by
    rw [header_text] at refused ⊢
    rw [classify_sigil, refused]
  simp only [parseHashlineHeaderLine, header_kept isTag, header_prefixed, kind, if_true] <;> rfl

/- What the recovery reads the path from. -/
def recoveryBody (path tag : JsString) : JsString := stripApplyPatchPathNoise (trim (path ++ 35 :: tag))

theorem recovery_body_sublist (path tag : JsString) : (recoveryBody path tag).Sublist (path ++ 35 :: tag) :=
  (strip_suffix _).sublist.trans (trim_sublist _)

theorem recovery_reads (path tag : JsString) :
    tryParseRecoveryHeader np cwd (formatHashlineHeader path tag) =
      if (recoveryBody path tag).isEmpty then none
      else
        match shortestPath [] (recoveryBody path tag) with
        | none => none
        | some found =>
            let path := normalizeHashlinePath np cwd found.path
            if path.isEmpty then none else some ⟨path,found.fileHash.map (·.map upperHex),[]⟩ := by
  have sigil : filePrefix = [182] := by decide
  have rest : (formatHashlineHeader path tag).drop filePrefix.length = path ++ 35 :: tag := by
    rw [header_text, sigil]
    rfl
  simp only [tryParseRecoveryHeader, header_prefixed, rest, if_true, recoveryBody]
  rfl

/-- Only the whole path can come back: everything that is taken off makes it shorter. -/
theorem recovered_carried (sound : np.ShortensInside) (isTag : IsTag tag)
    (recovered : tryParseRecoveryHeader np cwd (formatHashlineHeader path tag) = some ⟨path,some tag,[]⟩) :
    CarriedPath np cwd path := by
  rw [recovery_reads] at recovered
  split at recovered
  · cases recovered
  · cases ran : shortestPath [] (recoveryBody path tag) with
    | none => simp [ran] at recovered
    | some found =>
      simp only [ran] at recovered
      split at recovered
      · cases recovered
      · obtain ⟨normal,tagged⟩ : normalizeHashlinePath np cwd found.path = path ∧
            found.fileHash.map (·.map upperHex) = some tag := by simpa using recovered
        obtain ⟨given,hash,-⟩ := Option.map_eq_some_iff.mp tagged
        obtain ⟨part,rest,whole,text,more,-,-,clean⟩ := shortestPath_tagged ran hash
        rw [List.nil_append] at whole
        have longer : path.length ≤ part.length := by
          rw [← normal, ← whole]
          exact normalize_length sound cwd found.path
        have sub := recovery_body_sublist path tag
        have within := sub.length_le
        have width : fileHashLength = 4 := rfl
        simp only [text, List.length_append, List.length_cons, isTag.1] at within
        have same : recoveryBody path tag = path ++ 35 :: tag := by
          refine sub.eq_of_length ?_
          simp only [text, List.length_append, List.length_cons, isTag.1]
          omega
        have parts : part ++ rest = path ++ 35 :: tag := text.symm.trans same
        obtain ⟨rfl,-⟩ := List.append_inj parts (by omega)
        rw [whole] at normal
        refine ⟨(normalize_iff sound cwd part).mp normal,?_,?_,fun _ => clean⟩
        · intro mem
          exact absurd (clean _ mem) (by decide)
        · intro mem
          exact absurd (clean _ mem) (by decide)

theorem carried_recovered (sound : np.ShortensInside) (isTag : IsTag tag) (nonempty : path ≠ []) (carried : CarriedPath np cwd path)
    (broken : ∃ c ∈ path, isPathEnd c = true) :
    tryParseRecoveryHeader np cwd (formatHashlineHeader path tag) = some ⟨path,some tag,[]⟩ := by
  obtain ⟨c,mem,cut⟩ := broken
  have hash : 35 ∈ path := by
    simp only [isPathEnd, Bool.or_eq_true, beq_iff_eq] at cut
    rcases cut with (rfl | rfl) | rfl
    · exact mem
    · exact absurd mem carried.spaceless
    · exact absurd mem carried.tabless
  have clean := carried.hashed hash
  have head : (path ++ 35 :: tag).head? = path.head? := by
    cases path with
    | nil => exact absurd rfl nonempty
    | cons c path => rfl
  have visible : ∀ c ∈ path.head?, isWhitespace c = false := fun c first => clean c (List.mem_of_mem_head? first)
  have trimmed : trim (path ++ 35 :: tag) = path ++ 35 :: tag := by
    have started : trimStart (path ++ 35 :: tag) = path ++ 35 :: tag := by
      cases path with
      | nil => exact absurd rfl nonempty
      | cons c path => simp [trimStart, visible c rfl]
    rw [trim, started, header_trimEnd isTag]
  have noColon : headerColon ∉ 35 :: tag := by
    intro among
    rcases List.mem_cons.mp among with same | inside
    · exact absurd same (by decide)
    · exact (hexDigits_units _ (isTag.2 _ inside)).2.2.2.2.1 rfl
  have body : recoveryBody path tag = path ++ 35 :: tag := by
    rw [recoveryBody, trimmed]
    refine (strip_iff _).mpr ⟨?_,?_,?_⟩
    · rw [head]
      exact carried.plain.starless
    · rw [head]
      exact visible
    · rw [keyword_append noColon]
      exact carried.plain.keywordless
  rw [recovery_reads, body, shortestPath_header isTag [] nonempty clean, List.nil_append]
  simp [nonempty, (normalize_iff sound cwd path).mpr carried.plain, tag_upper isTag]

theorem header_line_iff (sound : np.ShortensInside) (isTag : IsTag tag) (nonempty : path ≠ []) :
    parseHashlineHeaderLine np cwd (formatHashlineHeader path tag) = .ok (some ⟨path,some tag,[]⟩) ↔
      CarriedPath np cwd path := by
  by_cases unbroken : ∀ c ∈ path, isPathEnd c = false
  · rw [header_line_strict cwd isTag nonempty unbroken]
    constructor
    · intro read
      split at read
      · cases read
      · have normal : normalizeHashlinePath np cwd path = path := by simpa using read
        have absent : ∀ c, isPathEnd c = true → c ∉ path := by
          intro c cut mem
          rw [unbroken c mem] at cut
          exact absurd cut (by decide)
        exact ⟨(normalize_iff sound cwd path).mp normal,absent 32 (by decide),absent 9 (by decide),
          fun mem => absurd mem (absent 35 (by decide))⟩
    · intro carried
      rw [(normalize_iff sound cwd path).mpr carried.plain]
      simp [nonempty]
  · have broken : ∃ c ∈ path, isPathEnd c = true := by simpa using unbroken
    rw [header_line_recovered cwd isTag broken]
    constructor
    · intro read
      cases ran : tryParseRecoveryHeader np cwd (formatHashlineHeader path tag) with
      | none => simp [ran] at read
      | some recovered =>
        obtain rfl : recovered = ⟨path,some tag,[]⟩ := by simpa [ran] using read
        exact recovered_carried cwd sound isTag ran
    · intro carried
      rw [carried_recovered cwd sound isTag nonempty carried broken]

end line

/-- A line that the splitter keeps in the section it is in. -/
structure PlainRow (row : JsString) : Prop where
  open_envelope : classifyKind row ≠ .envelopeBegin
  close_envelope : classifyKind row ≠ .envelopeEnd
  continues : classifyKind row ≠ .abort
  headerless : startsWith (trimEnd row) filePrefix = false

variable {row first : JsString}

theorem sigil_first (here : startsWith (trimEnd row) filePrefix = true) : ∃ tail, row = 182 :: tail := by
  have sigil : filePrefix = [182] := by decide
  rw [sigil] at here
  have front : [182] <+: row :=
    (List.isPrefixOf_iff_prefix.mp here).trans (List.rdropWhile_prefix isWhitespace row)
  obtain ⟨tail,text⟩ := front
  exact ⟨tail,text.symm⟩

theorem hunk_row_plain (kind : classifyKind row = .blank ∨
    (∃ target, classifyKind row = .opBlock target) ∨ ∃ text, classifyKind row = .payloadLiteral text) : PlainRow row := by
  have headerless : startsWith (trimEnd row) filePrefix = false := by
    by_contra here
    obtain ⟨tail,rfl⟩ := sigil_first (by simpa using here)
    rw [classify_sigil] at kind
    cases header : tryParseHeader (182 :: tail) with
    | none => simp [header] at kind
    | some found => simp [header] at kind
  rcases kind with blank | ⟨target,op⟩ | ⟨text,payload⟩
  · exact ⟨by simp [blank],by simp [blank],by simp [blank],headerless⟩
  · exact ⟨by simp [op],by simp [op],by simp [op],headerless⟩
  · exact ⟨by simp [payload],by simp [payload],by simp [payload],headerless⟩

theorem opBlock_lead {target : BlockTarget} (op : classifyKind row = .opBlock target) : isHunkLead row = true := by
  by_contra other
  have noLead : isHunkLead row = false := by simpa using other
  unfold classifyKind classifyBody at op
  simp only [noLead, Bool.false_eq_true, if_false] at op
  unfold classifyPlain at op
  repeat' split at op
  all_goals cases op

theorem trim_blank {text : JsString} (blank : (trim text).isEmpty = true) : ∀ c ∈ text, isWhitespace c = true := by
  rw [List.isEmpty_iff, trim, trimEnd, List.rdropWhile_eq_nil_iff] at blank
  cases started : trimStart text with
  | nil => exact List.dropWhile_eq_nil_iff.mp started
  | cons c rest =>
    have stopped := List.head?_dropWhile_not isWhitespace text
    have all := blank c (by simp [started])
    rw [← trimStart, started] at stopped
    rw [show isWhitespace c = false from stopped] at all
    exact absurd all (by decide)

/-- A hunk header is no blank line. -/
theorem opBlock_visible {target : BlockTarget} (op : classifyKind row = .opBlock target) : (trim row).isEmpty = false := by
  by_contra blank
  have all := trim_blank (by simpa using blank : (trim row).isEmpty = true)
  have noLetter : ∀ (c : CodeUnit) (rest : JsString), isWhitespace c = false → startsWith (skipWhitespace row) (c :: rest) = false := by
    intro c rest letter
    by_contra here
    have front : c :: rest <+: skipWhitespace row := List.isPrefixOf_iff_prefix.mp (eq_true_of_ne_false here)
    have mem : c ∈ row := (List.dropWhile_sublist isWhitespaceCode).subset (front.subset List.mem_cons_self)
    rw [all c mem] at letter
    exact absurd letter (by decide)
  have replace : replaceKeyword = 114 :: js "eplace" := by decide
  have delete : deleteKeyword = 100 :: js "elete" := by decide
  have insert : insertKeyword = 105 :: js "nsert" := by decide
  have lead := opBlock_lead op
  rw [isHunkLead, replace, delete, insert, noLetter 114 _ (by decide), noLetter 100 _ (by decide),
    noLetter 105 _ (by decide)] at lead
  exact absurd lead (by decide)

theorem splitFrom_plain (np : NodePath) (cwd : Option JsString) (s : Splitting) {rows : List JsString}
    (plain : ∀ row ∈ rows, PlainRow row) :
    splitFrom np cwd s rows = .ok { s with currentLines := s.currentLines ++ rows } := by
  induction rows generalizing s with
  | nil => simp [splitFrom]
  | cons row rows ih =>
    have here := plain row List.mem_cons_self
    have later := ih (s.push row) fun other mem => plain other (List.mem_cons_of_mem _ mem)
    have pushed : (s.push row).currentLines ++ rows = s.currentLines ++ row :: rows := by simp [Splitting.push]
    rw [pushed] at later
    unfold splitFrom
    split
    · exact absurd (by assumption) here.close_envelope
    · exact absurd (by assumption) here.continues
    · exact absurd (by assumption) here.open_envelope
    · rw [here.headerless]
      exact later

theorem join_cons_more {rest : List JsString} (more : rest ≠ []) :
    joinLines (first :: rest) = first ++ lineFeed :: joinLines rest := by
  cases rest with
  | nil => exact absurd rfl more
  | cons second rest => simp [joinLines, List.intercalate, List.intersperse]

theorem split_cons (text : JsString) (oneLine : lineFeed ∉ first) :
    splitLines (first ++ lineFeed :: text) = first :: splitLines text := by
  have more : splitLines text ≠ [] := List.splitOn_ne_nil lineFeed text
  have joined : joinLines (first :: splitLines text) = first ++ lineFeed :: text := by
    rw [join_cons_more more, join_split]
  rw [← joined]
  refine split_join _ ?_ (by simp)
  intro line mem
  rcases List.mem_cons.mp mem with rfl | among
  · exact oneLine
  · exact split_clean text line among

theorem splitRows_cons (text : JsString) (oneLine : lineFeed ∉ first) (noReturn : first.getLast? ≠ some carriageReturn) :
    splitRows (first ++ lineFeed :: text) = first :: splitRows text := by
  have more : splitLines text ≠ [] := List.splitOn_ne_nil lineFeed text
  rw [splitRows, split_cons text oneLine, splitRows]
  cases rows : splitLines text with
  | nil => exact absurd rows more
  | cons second rest => simp [stripAllButLast, stripCarriageReturn, noReturn]

section input
variable {np : NodePath} {options : SplitOptions} {path tag hunk : JsString}

/- The text that is split: a formatted header, a newline and a hunk. -/
def headedPatch (path tag hunk : JsString) : JsString := formatHashlineHeader path tag ++ lineFeed :: hunk

theorem header_one_line (isTag : IsTag tag) (oneLine : lineFeed ∉ path) : lineFeed ∉ formatHashlineHeader path tag := by
  rw [header_text]
  intro mem
  rcases List.mem_cons.mp mem with same | inside
  · exact absurd same (by decide)
  · rcases List.mem_append.mp inside with among | rest
    · exact oneLine among
    · rcases List.mem_cons.mp rest with same | digit
      · exact absurd same (by decide)
      · exact (hexDigits_units _ (isTag.2 _ digit)).2.2.2.2.2.1 rfl

theorem header_no_return (isTag : IsTag tag) : (formatHashlineHeader path tag).getLast? ≠ some carriageReturn := by
  obtain ⟨early,c,ends,digit⟩ := header_ends isTag (182 :: path)
  rw [List.cons_append] at ends
  rw [header_text, ends]
  intro last
  obtain rfl : c = carriageReturn := by simpa using last
  exact (hexDigits_units _ digit).2.2.2.2.2.2 rfl

theorem headed_rows (isTag : IsTag tag) (oneLine : lineFeed ∉ path) (hunk : JsString) :
    splitRows (headedPatch path tag hunk) = formatHashlineHeader path tag :: splitRows hunk :=
  splitRows_cons hunk (header_one_line isTag oneLine) (header_no_return isTag)

theorem headed_unmarked (path tag hunk : JsString) :
    (stripBom (headedPatch path tag hunk)).text = headedPatch path tag hunk := by
  have other : (182 : CodeUnit) ≠ byteOrderMark := by decide
  simp [headedPatch, header_text, stripBom, other]

theorem header_not_blank (isTag : IsTag tag) (path : JsString) : isLeadingBlank (formatHashlineHeader path tag) = false := by
  have kept : stripCarriageReturn (formatHashlineHeader path tag) = formatHashlineHeader path tag := by
    rw [stripCarriageReturn, if_neg (header_no_return isTag)]
  have visible : (trim (formatHashlineHeader path tag)).isEmpty = false := by
    by_contra blank
    have all := trim_blank (eq_true_of_ne_false blank) 182 (by simp [header_text])
    exact absurd all (by decide)
  simp [isLeadingBlank, kept, visible, (header_kinds path tag).1]

theorem headed_starts (isTag : IsTag tag) (oneLine : lineFeed ∉ path) (hunk : JsString) :
    stripLeadingBlankLines (headedPatch path tag hunk) = headedPatch path tag hunk := by
  rw [stripLeadingBlankLines, headed_unmarked, headedPatch, split_cons hunk (header_one_line isTag oneLine),
    List.dropWhile_cons_of_neg (by simp [header_not_blank isTag]), ← split_cons hunk (header_one_line isTag oneLine),
    join_split]

theorem header_line_found (np : NodePath) (path : JsString) (isTag : IsTag tag) (cwd : Option JsString) :
    (∃ found, parseHashlineHeaderLine np cwd (formatHashlineHeader path tag) = .ok (some found)) ∨
      ∃ e, parseHashlineHeaderLine np cwd (formatHashlineHeader path tag) = .error e := by
  cases read : parseHashlineHeaderLine np cwd (formatHashlineHeader path tag) with
  | error e => exact .inr ⟨e,rfl⟩
  | ok outcome =>
    cases outcome with
    | some found => exact .inl ⟨found,rfl⟩
    | none =>
      simp only [parseHashlineHeaderLine, header_kept isTag, header_prefixed, if_true] at read
      repeat' split at read
      all_goals cases read

theorem parse_refused (isTag : IsTag tag) (oneLine : lineFeed ∉ path) {e : JsString}
    (refused : parseHashlineHeaderLine np options.cwd (formatHashlineHeader path tag) = .error e) :
    Patch.parse np (headedPatch path tag hunk) options = .error e := by
  have explicit : hasExplicitHeader np options.cwd (splitRows (stripBom (headedPatch path tag hunk)).text) = .error e := by
    rw [headed_unmarked, headed_rows isTag oneLine, hasExplicitHeader, refused]
    rfl
  simp only [Patch.parse, splitRawSections, normalizeFallbackInput, explicit]
  rfl

theorem splitFrom_header (cwd : Option JsString) (isTag : IsTag tag) {found : RawSection}
    (read : parseHashlineHeaderLine np cwd (formatHashlineHeader path tag) = .ok (some found)) {rows : List JsString}
    (plain : ∀ row ∈ rows, PlainRow row) :
    splitFrom np cwd ⟨[],none,[]⟩ (formatHashlineHeader path tag :: rows) = .ok ⟨[],some found,rows⟩ := by
  have later := splitFrom_plain np cwd ⟨[],some found,[]⟩ plain
  have kinds := header_kinds path tag
  unfold splitFrom
  split
  · exact absurd (by assumption) kinds.2.1
  · exact absurd (by assumption) kinds.2.2
  · exact absurd (by assumption) kinds.1
  · rw [header_kept isTag, if_pos (header_prefixed path tag), read]
    exact later

theorem flush_hunk (found : RawSection) (valid : ValidHunk hunk) :
    (Splitting.flush ⟨[],some found,splitRows hunk⟩).sections =
      [{ found with diff := joinLines (splitRows hunk) }] := by
  obtain ⟨row,mem,target,op⟩ := valid.header
  have hasOps : (splitRows hunk).any (fun line => !(trim line).isEmpty) = true :=
    List.any_eq_true.mpr ⟨row,mem,by simp [opBlock_visible op]⟩
  simp [Splitting.flush, hasOps]

theorem parse_headed (isTag : IsTag tag) (oneLine : lineFeed ∉ path) (valid : ValidHunk hunk) {found : RawSection}
    (read : parseHashlineHeaderLine np options.cwd (formatHashlineHeader path tag) = .ok (some found)) :
    Patch.parse np (headedPatch path tag hunk) options =
      .ok [⟨found.path,found.fileHash,joinLines (splitRows hunk)⟩] := by
  have explicit : hasExplicitHeader np options.cwd (splitRows (stripBom (headedPatch path tag hunk)).text) = .ok true := by
    rw [headed_unmarked, headed_rows isTag oneLine, hasExplicitHeader, read]
    rfl
  have normal : normalizeFallbackInput np (headedPatch path tag hunk) options = .ok (headedPatch path tag hunk) := by
    simp only [normalizeFallbackInput, explicit]
    rfl
  have lines : splitRows (stripLeadingBlankLines (headedPatch path tag hunk)) =
      formatHashlineHeader path tag :: splitRows hunk := by
    rw [headed_starts isTag oneLine, headed_rows isTag oneLine]
  have ran := splitFrom_header options.cwd isTag read fun row mem => hunk_row_plain (valid.rows row mem)
  have split : splitRawSections np (headedPatch path tag hunk) options =
      .ok [⟨found.path,found.fileHash,joinLines (splitRows hunk)⟩] := by
    simp only [splitRawSections, normal, bind, Except.bind, lines, List.headD_cons, read, ran,
      flush_hunk found valid]
  have merged : mergeSamePathSections [⟨found.path,found.fileHash,joinLines (splitRows hunk)⟩] =
      .ok [⟨found.path,found.fileHash,joinLines (splitRows hunk)⟩] := by
    simp [mergeSamePathSections, mergeSection, joinLines, bind, Except.bind, pure, Except.pure]
  simp only [Patch.parse, split, bind, Except.bind, merged, List.map_cons, List.map_nil]

theorem header_line_diff {cwd : Option JsString} {line : JsString} {found : RawSection}
    (read : parseHashlineHeaderLine np cwd line = .ok (some found)) : found.diff = [] := by
  unfold parseHashlineHeaderLine tryParseRecoveryHeader at read
  grind

theorem header_round_trip_iff (options : SplitOptions) (sound : np.ShortensInside) (isTag : IsTag tag) (nonempty : path ≠ [])
    (oneLine : lineFeed ∉ path) (valid : ValidHunk hunk) :
    (∃ diff, Patch.parse np (headedPatch path tag hunk) options = .ok [⟨path,some tag,diff⟩]) ↔
      CarriedPath np options.cwd path := by
  rw [← header_line_iff options.cwd sound isTag nonempty]
  constructor
  · intro parsed
    obtain ⟨diff,parsed⟩ := parsed
    rcases header_line_found np path isTag options.cwd with ⟨found,read⟩ | ⟨e,refused⟩
    · rw [parse_headed isTag oneLine valid read] at parsed
      obtain ⟨samePath,sameTag,-⟩ : found.path = path ∧ found.fileHash = some tag ∧
          joinLines (splitRows hunk) = diff := by simpa using parsed
      have bare := header_line_diff read
      rw [read, ← samePath, ← sameTag, ← bare]
    · rw [parse_refused isTag oneLine refused] at parsed
      cases parsed
  · intro read
    exact ⟨_,parse_headed isTag oneLine valid read⟩

end input

/- Slashes as on POSIX hosts, for paths without dots. -/
def slashPaths : NodePath where
  isAbsolute path := path.head? == some 47
  resolve path := path
  relative dir path :=
    if dir = path then []
    else if startsWith path (dir ++ js "/") then path.drop (dir.length + 1)
    else js ".." ++ path

theorem slashPaths_shorten : slashPaths.ShortensInside := by
  refine ⟨?_,by decide⟩
  intro dir path absolute within
  have nonempty : 0 < path.length := by
    cases path with
    | nil => exact absurd absolute (by decide)
    | cons c rest => simp
  simp only [slashPaths] at within ⊢
  by_cases same : dir = path
  · rw [if_pos same]
    exact nonempty
  · rw [if_neg same] at within ⊢
    by_cases below : startsWith path (dir ++ js "/") = true
    · rw [if_pos below, List.length_drop]
      omega
    · rw [if_neg below] at within
      have up : js ".." = [46, 46] := by decide
      simp [isWithinCwd, up, startsWith] at within

def tailHunk : JsString := js "insert tail:\n+x"

theorem tailHunk_valid : ValidHunk tailHunk := by
  refine ⟨?_,js "insert tail:",by decide,.eof,by decide⟩
  have rows : splitRows tailHunk = [js "insert tail:", js "+x"] := by decide
  rw [rows]
  intro row mem
  rcases List.mem_cons.mp mem with rfl | later
  · exact .inr (.inl ⟨.eof,by decide⟩)
  · obtain rfl : row = js "+x" := by simpa using later
    exact .inr (.inr ⟨js "x",by decide⟩)

def liveTag : JsString := js "1A2B"

theorem liveTag_isTag : IsTag liveTag := by
  have each : liveTag.all (hexDigits.contains ·) = true := by decide
  refine ⟨rfl,?_⟩
  intro c mem
  simpa using List.all_eq_true.mp each c mem

/-- A name with a hash sign in it, read from a directory. -/
theorem header_round_trip_hashName : CarriedPath slashPaths (some (js "/w")) (js "notes#1.md") :=
  (header_round_trip_iff ⟨some (js "/w"),none⟩ slashPaths_shorten liveTag_isTag (by decide) (by decide)
    tailHunk_valid).mp ⟨tailHunk,by decide +kernel⟩

/-- Names that a header cannot carry: a space, quotes around it, a keyword of another format. -/
theorem header_changes_path :
    (js "my file.ts" ≠ [] ∧ lineFeed ∉ js "my file.ts" ∧ IsTag liveTag ∧ ValidHunk tailHunk) ∧
    Patch.parse slashPaths (headedPatch (js "my file.ts") liveTag tailHunk) ⟨none,none⟩ =
      .error (malformedHeader (js "¶my file.ts#1A2B")) ∧
    Patch.parse slashPaths (headedPatch (js "'a'") liveTag tailHunk) ⟨none,none⟩ =
      .ok [⟨js "a",some liveTag,tailHunk⟩] ∧
    Patch.parse slashPaths (headedPatch (js "update:a") liveTag tailHunk) ⟨none,none⟩ =
      .ok [⟨js "a",some liveTag,tailHunk⟩] :=
  ⟨⟨by decide,by decide,liveTag_isTag,tailHunk_valid⟩,by decide +kernel,by decide +kernel,by decide +kernel⟩

end Hashline
