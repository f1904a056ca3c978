import OpenAgents.Edit.ApplyPatch
import OpenAgents.Edit.ExactPatch

/- Which lists of lines an Add File operation writes unchanged. -/
namespace Edit
open JsText TextLines

def addedLine (line : JsString) : JsString := js "+" ++ line

def addFileEnvelope (path : JsString) (lines : List JsString) : JsString :=
  joinLines ([beginPatchMarker, addFileMarker ++ path] ++ lines.map addedLine ++ [endPatchMarker])

/- The lines of a file; an empty file has none. -/
def contentLines (content : JsString) : List JsString := if content.isEmpty then [] else textLines content

theorem trim_header (marker path : JsString) {first : CodeUnit} {rest : JsString} (begins : marker = first :: rest)
    (visible : isWhitespace first = false) (named : trimEnd path ≠ []) : trim (marker ++ path) = marker ++ trimEnd path := by
  have front : trimStart (marker ++ path) = marker ++ path := by simp [trimStart, begins, visible]
  rw [trim, front, trimEnd_append marker named]

variable {path line : JsString}

theorem split_envelope {lines : List JsString} (onePath : lineFeed ∉ path) (clean : ∀ line ∈ lines, lineFeed ∉ line) :
    splitLines (trim (addFileEnvelope path lines)) =
      [beginPatchMarker, addFileMarker ++ path] ++ lines.map addedLine ++ [endPatchMarker] := by
  have trimmed : trim (addFileEnvelope path lines) = addFileEnvelope path lines := by
    rw [addFileEnvelope, join_append _ (by simp : [endPatchMarker] ≠ [])]
    have last : joinLines [endPatchMarker] = endPatchMarker := by simp [joinLines]
    rw [last]
    have front : ∃ rest, terminate ([beginPatchMarker, addFileMarker ++ path] ++ lines.map addedLine) = 42 :: rest := by
      exact ⟨_,rfl⟩
    obtain ⟨rest,opening⟩ := front
    rw [opening]
    have start : trimStart (42 :: rest ++ endPatchMarker) = 42 :: rest ++ endPatchMarker := rfl
    have marker : trimEnd endPatchMarker = endPatchMarker := by decide
    rw [trim, start, trimEnd_append (42 :: rest) (by rw [marker]; decide), marker]
  rw [trimmed, addFileEnvelope]
  refine split_join _ ?_ (by simp)
  intro line mem
  simp only [List.cons_append, List.nil_append, List.mem_cons, List.mem_append, List.mem_map, List.not_mem_nil,
    or_false] at mem
  rcases mem with rfl | rfl | added | rfl
  · decide
  · have marker : lineFeed ∉ addFileMarker := by decide
    simp [marker, onePath]
  · obtain ⟨source,among,rfl⟩ := added
    have plus : lineFeed ∉ js "+" := by decide
    simp [addedLine, plus, clean source among]
  · decide

theorem parse_envelope {lines : List JsString} (onePath : lineFeed ∉ path) (clean : ∀ line ∈ lines, lineFeed ∉ line) :
    parseApplyPatch (addFileEnvelope path lines) =
      parseHunkList false (lines.length + 1) 2 ((addFileMarker ++ path) :: lines.map addedLine) := by
  have pieces := split_envelope onePath clean
  have whole : stripHeredoc (splitLines (trim (addFileEnvelope path lines))) =
      beginPatchMarker :: ((addFileMarker ++ path) :: lines.map addedLine) ++ [endPatchMarker] := by
    have opener : beginPatchMarker ∉ validOpeners := by decide
    rw [pieces, stripHeredoc, if_neg]
    · rfl
    · intro heredoc
      exact opener heredoc.2.1
  have begins : trim beginPatchMarker = beginPatchMarker := by decide
  have ends : trim endPatchMarker = endPatchMarker := by decide
  have last : (beginPatchMarker :: ((addFileMarker ++ path) :: lines.map addedLine) ++ [endPatchMarker]).getLastD [] =
      endPatchMarker := by rw [List.getLastD_eq_getLast?, List.getLast?_concat, Option.getD_some]
  have inner : (beginPatchMarker :: ((addFileMarker ++ path) :: lines.map addedLine) ++
      [endPatchMarker]).tail.dropLast = (addFileMarker ++ path) :: lines.map addedLine := by
    rw [List.cons_append, List.tail_cons, List.dropLast_concat]
  rw [parseApplyPatch, parseApplyPatchWithOptions]
  simp only [whole, last, inner, ends]
  simp [begins]

theorem takeWhile_added (lines : List JsString) : (lines.map addedLine).takeWhile isAddedLine = lines.map addedLine := by
  refine List.takeWhile_eq_self_iff.mpr ?_
  intro line mem
  obtain ⟨source,_,rfl⟩ := List.mem_map.mp mem
  rfl

theorem added_contents (lines : List JsString) : (lines.map addedLine).map (·.drop 1) = lines := by
  rw [List.map_map]
  exact List.map_id lines

theorem parse_header (lines : List JsString) (named : trimEnd path ≠ []) (fuel lineNumber : Nat) :
    parseHunkList false (fuel + 1) lineNumber ((addFileMarker ++ path) :: lines.map addedLine) =
      .ok [⟨trimEnd path,.create,none,some (terminate lines)⟩] := by
  have header : trim (addFileMarker ++ path) = addFileMarker ++ trimEnd path :=
    trim_header addFileMarker path (by rfl : addFileMarker = 42 :: _) (by decide) named
  have notBlank : (addFileMarker ++ trimEnd path).isEmpty = false := rfl
  have opens : startsWith (addFileMarker ++ trimEnd path) addFileMarker = true :=
    List.isPrefixOf_iff_prefix.mpr (List.prefix_append _ _)
  have rest : parseHunkList false fuel (lineNumber + 1 + lines.length) [] = .ok [] := by cases fuel <;> rfl
  rw [parseHunkList]
  simp only [header, notBlank, opens, takeWhile_added, added_contents, Bool.false_eq_true, if_false, if_true,
    List.drop_left, List.length_map]
  rw [show (lines.map addedLine).drop lines.length = [] by simp, rest]
  rfl

theorem parse_blank_header (lines : List JsString) (unnamed : trimEnd path = []) (fuel lineNumber : Nat) :
    ∃ message, parseHunkList false (fuel + 1) lineNumber ((addFileMarker ++ path) :: lines.map addedLine) =
      .error message := by
  have header : trim (addFileMarker ++ path) = js "*** Add File:" := by
    have front : trimStart (addFileMarker ++ path) = addFileMarker ++ path := rfl
    rw [trim, front, trimEnd_append_blank addFileMarker unnamed]
    decide
  refine ⟨parseError (invalidHeader (js "*** Add File:")) lineNumber,?_⟩
  rw [parseHunkList]
  simp only [header]
  rfl

/- The test `normalizeCreateContent` makes on the lines it is given. -/
def looksPrefixed (lines : List JsString) : Bool :=
  lines.any (fun line => !line.isEmpty) && lines.all fun line => line.isEmpty || isAddedLine line

theorem split_terminated {lines : List JsString} (clean : ∀ line ∈ lines, lineFeed ∉ line) :
    splitLines (terminate lines) = lines ++ [[]] := by
  have joined : joinLines (lines ++ [[]]) = terminate lines := by
    rw [join_append lines (by simp : [[]] ≠ ([] : List JsString))]
    simp [joinLines]
  rw [← joined]
  refine split_join _ ?_ (by simp)
  intro line mem
  rcases List.mem_append.mp mem with given | last
  · exact clean line given
  · simp [List.mem_singleton.mp last]

theorem terminate_ends {lines : List JsString} (some' : lines ≠ []) : endsWithLineFeed (terminate lines) = true := by
  obtain ⟨front,last,rfl⟩ : ∃ front last, lines = front ++ [last] :=
    ⟨lines.dropLast,lines.getLast some',(List.dropLast_append_getLast some').symm⟩
  have text : terminate (front ++ [last]) = terminate front ++ last ++ [lineFeed] := by simp [terminate]
  rw [text]
  exact endsWith_append_lineFeed _

theorem terminate_filled {lines : List JsString} (some' : lines ≠ []) : (terminate lines).isEmpty = false := by
  cases lines with
  | nil => exact absurd rfl some'
  | cons line lines => simp [terminate]

theorem contentLines_terminated {lines : List JsString} (clean : ∀ line ∈ lines, lineFeed ∉ line) :
    contentLines (terminate lines) = lines := by
  by_cases none' : lines = []
  · rw [none']
    rfl
  · simp only [contentLines, terminate_filled none', textLines, terminate_ends none', if_true, Bool.false_eq_true,
      if_false]
    rw [split_terminated clean, List.dropLast_concat]

theorem dropPlus_shorter (added : isAddedLine line = true) : (dropPlus line).length < line.length := by
  have filled : line ≠ [] := by
    rintro rfl
    simp [isAddedLine, startsWith, js, utf16] at added
  have positive := List.length_pos_of_ne_nil filled
  have plus : startsWith line (js "+") = true := added
  rw [dropPlus, plus, if_pos rfl]
  split
  · simp only [List.length_drop]
    omega
  · simp only [List.length_drop]
    omega

theorem dropPlus_clean (clean : lineFeed ∉ line) : lineFeed ∉ dropPlus line := by
  have dropped : ∀ n, lineFeed ∉ line.drop n := fun n mem => clean (List.mem_of_mem_drop mem)
  rw [dropPlus]
  split
  · exact dropped 2
  · split
    · exact dropped 1
    · exact clean

/-- A list that looks prefixed loses a character of some line. -/
theorem dropped_differ {lines : List JsString} (guess : looksPrefixed lines = true) : lines.map dropPlus ≠ lines := by
  rw [looksPrefixed, Bool.and_eq_true, List.any_eq_true, List.all_eq_true] at guess
  obtain ⟨⟨line,mem,filled⟩,all⟩ := guess
  have added : isAddedLine line = true := by simpa [show line.isEmpty = false by simpa using filled] using all line mem
  intro same
  have kept : dropPlus line = line := by
    have every := List.map_eq_map_iff.mp (same.trans (List.map_id lines).symm)
    exact every line mem
  have shorter := dropPlus_shorter added
  rw [kept] at shorter
  omega

theorem normalize_terminated {lines : List JsString} (clean : ∀ line ∈ lines, lineFeed ∉ line) :
    normalizeCreateContent (terminate lines) =
      terminate (if looksPrefixed lines then lines.map dropPlus else lines) := by
  have nonEmpty : (lines ++ [[]]).filter (fun line : JsString => !line.isEmpty) =
      lines.filter fun line => !line.isEmpty := by simp
  have guess : (!(lines.filter fun line => !line.isEmpty).isEmpty &&
      (lines.filter fun line => !line.isEmpty).all fun line =>
        startsWith line (js "+ ") || startsWith line (js "+")) = looksPrefixed lines := by
    have either : ∀ line : JsString, (startsWith line (js "+ ") || startsWith line (js "+")) = isAddedLine line := by
      intro line
      cases spaced : startsWith line (js "+ ") with
      | false => rfl
      | true =>
        have front : js "+" <+: js "+ " := ⟨[space],rfl⟩
        have added : isAddedLine line = true :=
          List.isPrefixOf_iff_prefix.mpr (front.trans (List.isPrefixOf_iff_prefix.mp spaced))
        rw [added, Bool.true_or]
    simp only [either]
    rw [looksPrefixed, Bool.eq_iff_iff]
    simp
  simp only [normalizeCreateContent, split_terminated clean, nonEmpty, guess]
  split
  · have blank : (lines ++ [[]]).map dropPlus = lines.map dropPlus ++ [[]] := by
      rw [List.map_append]
      rfl
    rw [blank, join_append _ (by simp : [[]] ≠ ([] : List JsString))]
    simp [joinLines]
  · rfl

section applying
variable {Score : Type} (sc : Scoring Score) (options : ApplyPatchOptions Score) (files : Files)

/- The envelope leaves, at the path it names, a file with these lines. -/
def AddsFile (path : JsString) (lines : List JsString) : Prop :=
  (∃ result, (applyCodexPatch sc options (addFileEnvelope path lines) files).1 = .ok result) ∧
    ∃ content, (applyCodexPatch sc options (addFileEnvelope path lines) files).2 (options.resolvePath (trimEnd path)) =
      some content ∧ contentLines content = lines

theorem create_terminated (path : JsString) {lines : List JsString} (clean : ∀ line ∈ lines, lineFeed ∉ line)
    (some' : lines ≠ []) (writes : options.dryRun = false) :
    applyPatch sc options ⟨path,.create,none,some (terminate lines)⟩ files =
      .ok (⟨⟨.create,options.resolvePath path,none,none,
          some (terminate (if looksPrefixed lines then lines.map dropPlus else lines))⟩,[]⟩,
        Function.update files (options.resolvePath path)
          (some (terminate (if looksPrefixed lines then lines.map dropPlus else lines)))) := by
  have filled : present (some (terminate lines)) = some (terminate lines) := by
    simp [present, terminate_filled some']
  have more : (if looksPrefixed lines then lines.map dropPlus else lines) ≠ [] := by
    split
    · simpa using some'
    · exact some'
  have ends := terminate_ends more
  have unmoved : present none = none := rfl
  simp only [applyPatch, createFile, unmoved, filled, writes, normalize_terminated clean, ends, if_true]
  rfl

theorem create_nothing (path : JsString) :
    applyPatch sc options ⟨path,.create,none,some (terminate [])⟩ files =
      .error (js "Create operation requires diff (file content)") := rfl

theorem looksPrefixed_false_iff (lines : List JsString) :
    looksPrefixed lines = false ↔
      (∀ line ∈ lines, line = []) ∨ ∃ line ∈ lines, line ≠ [] ∧ startsWith line (js "+") = false := by
  rw [looksPrefixed, Bool.and_eq_false_iff, List.any_eq_false, List.all_eq_false]
  simp [isAddedLine]

/-- An Add File operation writes its lines unless there are none, or all that are not empty begin with `+`. -/
theorem add_file_round_trip_iff {path : JsString} {lines : List JsString} (onePath : lineFeed ∉ path)
    (clean : ∀ line ∈ lines, lineFeed ∉ line) (writes : options.dryRun = false) :
    AddsFile sc options files path lines ↔
      trimEnd path ≠ [] ∧ lines ≠ [] ∧
        ((∀ line ∈ lines, line = []) ∨ ∃ line ∈ lines, line ≠ [] ∧ startsWith line (js "+") = false) := by
  rw [← looksPrefixed_false_iff]
  by_cases named : trimEnd path = []
  · obtain ⟨message,refused⟩ := parse_blank_header lines named (lines.length) 2
    have failed : parseApplyPatch (addFileEnvelope path lines) = .error message := by
      rw [parse_envelope onePath clean, refused]
    constructor
    · intro adds
      obtain ⟨⟨result,run⟩,_⟩ := adds
      simp only [applyCodexPatch, failed] at run
      contradiction
    · intro kept
      exact absurd named kept.1
  · have parsed : parseApplyPatch (addFileEnvelope path lines) =
        .ok [⟨trimEnd path,.create,none,some (terminate lines)⟩] := by
      rw [parse_envelope onePath clean, parse_header lines named]
    by_cases none' : lines = []
    · subst none'
      constructor
      · intro adds
        obtain ⟨⟨result,run⟩,_⟩ := adds
        simp [applyCodexPatch, parsed, applyHunkList, create_nothing] at run
      · intro kept
        exact absurd rfl kept.2.1
    · have written := create_terminated sc options files (trimEnd path) clean none' writes
      have run : ∃ result, applyCodexPatch sc options (addFileEnvelope path lines) files =
          (.ok result, Function.update files (options.resolvePath (trimEnd path))
            (some (terminate (if looksPrefixed lines then lines.map dropPlus else lines)))) := by
        simp [applyCodexPatch, parsed, applyHunkList, written]
      obtain ⟨result,run⟩ := run
      have dropClean : ∀ line ∈ lines.map dropPlus, lineFeed ∉ line := by
        intro line mem
        obtain ⟨source,among,rfl⟩ := List.mem_map.mp mem
        exact dropPlus_clean (clean source among)
      rw [AddsFile, run]
      simp only [Function.update_self, Option.some.injEq]
      constructor
      · intro adds
        obtain ⟨_,content,rfl,same⟩ := adds
        refine ⟨named,none',?_⟩
        cases guess : looksPrefixed lines with
        | false => rfl
        | true =>
          rw [guess, if_pos rfl, contentLines_terminated dropClean] at same
          exact absurd same (dropped_differ guess)
      · intro kept
        refine ⟨⟨_,rfl⟩,_,rfl,?_⟩
        rw [kept.2.2]
        exact contentLines_terminated clean

end applying

def plainOptions : ApplyPatchOptions Int := ⟨id,false,950,true⟩
def noFiles : Files := fun _ => none

theorem add_file_round_trip_iff_mixed : AddsFile wholeScores plainOptions noFiles (js "f") [js "+a", [], js "b"] :=
  (add_file_round_trip_iff wholeScores plainOptions noFiles (by decide) (by decide) rfl).mpr
    ⟨by decide,by decide,.inr ⟨js "b",by decide,by decide,by decide⟩⟩

/-- A file of one line `+a` loses the sign, and a file of no lines is refused. -/
theorem plus_lines_are_stripped :
    ((applyCodexPatch wholeScores plainOptions (addFileEnvelope (js "f") [js "+a"]) noFiles).2 (js "f") =
      some (js "a\n") ∧ contentLines (js "a\n") ≠ [js "+a"]) ∧
    (applyCodexPatch wholeScores plainOptions (addFileEnvelope (js "f") []) noFiles).1 =
      .error (js "Create operation requires diff (file content)") := by
  refine ⟨⟨by decide +kernel,by decide⟩,by decide +kernel⟩

end Edit
