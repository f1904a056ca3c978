import OpenAgents.Hashline.Prefixes
import OpenAgents.Lib.TextLines

/- What comes back when the prefixes of a numbered read are taken off again. -/
namespace Hashline
open JsText BacktrackingRegex TextLines

section lines

theorem numbered_lead (n : Nat) (line : JsString) : ∃ c digits, formatNumberedLine n line = c :: (digits ++ (lineBodySep ++ line)) ∧
    isDigit c = true ∧ ∀ d ∈ digits, isDigit d = true := by
  obtain ⟨c,digits,text⟩ := List.exists_cons_of_ne_nil (decimal_ne_nil n)
  have all := decimal_digits n
  rw [text] at all
  refine ⟨c,digits,by simp [formatNumberedLine, text],all c List.mem_cons_self,fun d mem => ?_⟩
  exact all d (List.mem_cons_of_mem c mem)

variable {c : CodeUnit} {line : JsString}

theorem digit_units (digit : isDigit c = true) : isWhitespace c = false ∧ c ≠ 62 ∧ c ≠ 91 ∧ c ≠ 182 ∧
    (js "+*-").contains c = false ∧ c ≠ 58 ∧ c ≠ carriageReturn ∧ c ≠ lineFeed := by
  have each : ∀ d : Fin 10, isWhitespace (UInt16.ofNat (48 + d.1)) = false ∧ UInt16.ofNat (48 + d.1) ≠ 62 ∧
      UInt16.ofNat (48 + d.1) ≠ 91 ∧ UInt16.ofNat (48 + d.1) ≠ 182 ∧ (js "+*-").contains (UInt16.ofNat (48 + d.1)) = false ∧
      UInt16.ofNat (48 + d.1) ≠ 58 ∧ UInt16.ofNat (48 + d.1) ≠ carriageReturn ∧ UInt16.ofNat (48 + d.1) ≠ lineFeed := by
    decide
  obtain ⟨d,rfl⟩ := digit_offset digit
  exact each d

theorem notice_lead (rest : JsString) (other : c ≠ 91) : isTruncationNotice (c :: rest) = false := by
  have range : js "[Showing lines " = 91 :: js "Showing lines " := by decide
  have more : js "[" = [91] := by decide
  have none' : run (.alt noticeRangeRegex noticeMoreRegex) (c :: rest) = [] := by
    simp only [noticeRangeRegex, noticeMoreRegex, concat, run, range, more]
    simp [List.isPrefixOf, other.symm]
  rw [isTruncationNotice, none']
  rfl

theorem numbered_notice (n : Nat) (line : JsString) : isTruncationNotice (formatNumberedLine n line) = false := by
  obtain ⟨c,digits,text,digit,-⟩ := numbered_lead n line
  rw [text]
  exact notice_lead _ (digit_units digit).2.2.1

theorem numbered_header (n : Nat) (line : JsString) : isHlHeader (formatNumberedLine n line) = false := by
  obtain ⟨c,digits,text,digit,-⟩ := numbered_lead n line
  generalize digits ++ (lineBodySep ++ line) = rest at text
  have sigil : filePrefix = [182] := by decide
  have blanks : run blanksRegex (c :: rest) = [c :: rest] :=
    run_star_stop fun d here => by
      cases here
      exact (digit_units digit).1
  have literal := literal_refused [] rest (digit_units digit).2.2.2.1
  have none' : run hlHeaderRegex (c :: rest) = [] := by
    simp only [hlHeaderRegex, hlHeaderBodyRegex, concat, sigil]
    rw [run, run, blanks, List.flatMap_singleton, run, literal]
    rfl
  rw [text, isHlHeader, test, none']
  rfl

theorem prefix_numbered (n : Nat) (line : JsString) : (run hlPrefixRegex (formatNumberedLine n line)).head? = some line := by
  obtain ⟨c,digits,text,digit,others⟩ := numbered_lead n line
  obtain ⟨visible,noQuote,-,-,noMark,-⟩ := digit_units digit
  have unmarked : c ∉ js "+*-" := by simpa using noMark
  have colon : lineBodySep = [58] := by decide
  have stop : ∀ d ∈ (lineBodySep ++ line).head?, isDigit d = false := by
    intro d here
    rw [colon] at here
    cases here
    rfl
  have number : (run digitsRegex (c :: (digits ++ (lineBodySep ++ line)))).head? = some (lineBodySep ++ line) := by
    have first : (run (.set isDigit) (c :: (digits ++ (lineBodySep ++ line)))).head? = some (digits ++ (lineBodySep ++ line)) := by
      simp [run, digit]
    exact first_seq first (first_star_all others stop)
  have body : (run (.literal (js ":")) (lineBodySep ++ line)).head? = some line := by
    have token : js ":" = [58] := by decide
    simp [run, colon, token]
  rw [text]
  generalize digits ++ (lineBodySep ++ line) = rest at number
  have blanks : (run blanksRegex (c :: rest)).head? = some (c :: rest) :=
    first_star_stop fun d here => by
      cases here
      exact visible
  have quotes : (run quotesRegex (c :: rest)).head? = some (c :: rest) := by
    have three : js ">>>" = 62 :: js ">>" := by decide
    have two : js ">>" = 62 :: js ">" := by decide
    simp only [quotesRegex, run, three, two]
    simp [List.isPrefixOf, noQuote.symm]
  have mark : (run (.optional (.seq (anyOf (js "+*-")) blanksRegex)) (c :: rest)).head? = some (c :: rest) := by
    simp [run, anyOf, unmarked]
  exact first_seq blanks (first_seq quotes (first_seq blanks (first_seq mark (first_seq number body))))

theorem prefix_local : isLocal hlPrefixRegex = true := by decide

theorem numbered_prefixed (n : Nat) (line : JsString) : isHlPrefixed (formatNumberedLine n line) = true := by
  have found := prefix_numbered n line
  unfold isHlPrefixed test
  cases remainders : run hlPrefixRegex (formatNumberedLine n line) with
  | nil =>
    rw [remainders] at found
    contradiction
  | cons rest others => rfl

theorem drop_numbered (n : Nat) (line : JsString) : dropHlPrefix (formatNumberedLine n line) = line := by
  rw [dropHlPrefix, prefix_numbered]
  rfl

theorem drop_plain (plain : isHlPrefixed line = false) : dropHlPrefix line = line := by
  have none' : run hlPrefixRegex line = [] := by simpa [isHlPrefixed, test] using plain
  rw [dropHlPrefix, none']
  rfl

theorem drop_suffix (line : JsString) : dropHlPrefix line <:+ line := by
  unfold dropHlPrefix
  cases found : (run hlPrefixRegex line).head? with
  | none => exact List.suffix_rfl
  | some rest => exact first_suffix prefix_local found

theorem passes_suffix (passes : Nat) (line : JsString) : stripPasses passes line <:+ line := by
  induction passes generalizing line with
  | zero => exact List.suffix_rfl
  | succ passes ih =>
    unfold stripPasses
    dsimp only
    split
    · exact List.suffix_rfl
    · exact (ih (dropHlPrefix line)).trans (drop_suffix line)

theorem passes_plain (passes : Nat) (plain : isHlPrefixed line = false) : stripPasses passes line = line := by
  cases passes with
  | zero => rfl
  | succ passes => rw [stripPasses, if_pos (drop_plain plain)]

theorem strip_numbered (n : Nat) (plain : isHlPrefixed line = false) :
    stripLeadingHashlinePrefixes (formatNumberedLine n line) = line := by
  obtain ⟨c,digits,text,-⟩ := numbered_lead n line
  have size : (formatNumberedLine n line).length = (digits ++ (lineBodySep ++ line)).length + 1 := by
    rw [text, List.length_cons]
  have shorter : dropHlPrefix (formatNumberedLine n line) ≠ formatNumberedLine n line := by
    intro same
    rw [drop_numbered] at same
    have lengths := congrArg List.length same
    simp only [size, List.length_append] at lengths
    omega
  unfold stripLeadingHashlinePrefixes
  rw [size, stripPasses, if_neg shorter, drop_numbered]
  exact passes_plain _ plain

/-- The header's tag has four digits and the header's expression knows three. -/
theorem header_unrecognized {path tag : JsString} (isTag : IsTag tag) : isHlHeader (formatHashlineHeader path tag) = false := by
  by_contra found
  have found : isHlHeader (formatHashlineHeader path tag) = true := eq_true_of_ne_false found
  obtain ⟨rest,mem⟩ : ∃ rest, rest ∈ run hlHeaderRegex (formatHashlineHeader path tag) := by
    rw [isHlHeader, test, Bool.not_eq_true', List.isEmpty_eq_false_iff_exists_mem] at found
    exact found
  rw [hlHeaderRegex, run, List.mem_flatMap] at mem
  obtain ⟨stop,body,last⟩ := mem
  have ended : stop = [] := by
    simp only [run] at last
    cases stop with
    | nil => rfl
    | cons c stop => simp at last
  obtain ⟨whole,text,taken⟩ := (mem_run hlHeaderBodyRegex (by decide) _ stop).mp body
  rw [ended, List.append_nil] at text
  obtain ⟨blank,tail,rfl,-,sigil,tail',rfl,-,name,tail2,rfl,-,sep,tail3,rfl,isSep,h1,tail4,rfl,⟨d1,rfl,-⟩,
    h2,tail5,rfl,⟨d2,rfl,-⟩,h3,after,rfl,⟨d3,rfl,-⟩,blanks⟩ := taken
  have spaces := matches_star blanks
  obtain ⟨early,c,ends,digit⟩ := header_ends isTag (182 :: path)
  rw [header_text, ← List.cons_append] at text
  have nothing : after = [] := by
    rcases List.eq_nil_or_concat after with none' | ⟨front,d,rfl⟩
    · exact none'
    · have shape : early ++ [c] = (blank ++ sigil ++ name ++ sep ++ [d1, d2, d3] ++ front) ++ [d] := by
        rw [← ends, text]
        simp
      obtain rfl : c = d := by simpa using List.append_inj_right' shape rfl
      have blank' := spaces c (by simp)
      exact absurd ((hexDigits_units c digit).2.1.symm.trans blank') (by decide)
  have hash : sep = [35] := isSep.trans (by decide)
  subst nothing hash
  have four : tag.length = 4 := isTag.1
  have same : (182 :: path ++ [35]) ++ tag = (blank ++ sigil ++ name) ++ [35, d1, d2, d3] := by
    simpa using text
  have tags := (List.append_inj_right' same four)
  have impossible := isTag.2 35 (by rw [tags]; exact List.mem_cons_self)
  exact absurd impossible (by decide)

end lines

/- The lines the statistics call content. -/
def isContentLine (line : JsString) : Bool := !line.isEmpty && !isTruncationNotice line && !isHlHeader line
def isHeaderLine (line : JsString) : Bool := !line.isEmpty && !isTruncationNotice line && isHlHeader line

theorem countLine_counts (stats : LinePrefixStats) (line : JsString) :
    (countLine stats line).headerCount = stats.headerCount + (if isHeaderLine line then 1 else 0) ∧
    (countLine stats line).nonEmpty =
      stats.nonEmpty + (if isHeaderLine line then 1 else 0) + (if isContentLine line then 1 else 0) ∧
    (countLine stats line).hashPrefixCount =
      stats.hashPrefixCount + (if isContentLine line && isHlPrefixed line then 1 else 0) := by
  unfold countLine isHeaderLine isContentLine
  by_cases empty : line.isEmpty = true
  · simp [empty]
  · by_cases notice : isTruncationNotice line = true
    · simp [empty, notice]
    · by_cases header : isHlHeader line = true
      · simp [empty, notice, header]
      · simp [empty, notice, header]

theorem stats_counts (lines : List JsString) : ∀ stats : LinePrefixStats,
    (lines.foldl countLine stats).headerCount = stats.headerCount + lines.countP isHeaderLine ∧
    (lines.foldl countLine stats).nonEmpty = stats.nonEmpty + lines.countP isHeaderLine + lines.countP isContentLine ∧
    (lines.foldl countLine stats).hashPrefixCount =
      stats.hashPrefixCount + lines.countP fun line => isContentLine line && isHlPrefixed line := by
  induction lines with
  | nil => exact fun _ => ⟨rfl,rfl,rfl⟩
  | cons line lines ih =>
    intro stats
    obtain ⟨header,nonEmpty,hash⟩ := ih (countLine stats line)
    obtain ⟨header',nonEmpty',hash'⟩ := countLine_counts stats line
    rw [List.foldl_cons, header, nonEmpty, hash, header', nonEmpty', hash']
    simp only [List.countP_cons]
    omega

theorem countP_and_all {lines : List JsString} {p q : JsString → Bool} :
    lines.countP (fun line => p line && q line) = lines.countP p ↔ ∀ line ∈ lines, p line = true → q line = true := by
  induction lines with
  | nil => simp
  | cons line lines ih =>
    have fewer : lines.countP (fun line => p line && q line) ≤ lines.countP p :=
      List.countP_mono_left fun line _ both => (Bool.and_eq_true_iff.mp both).1
    rw [List.countP_cons, List.countP_cons, List.forall_mem_cons, ← ih]
    cases p line with
    | false => simp
    | true =>
      cases q line with
      | true => simp
      | false =>
        simp
        omega

/- When the numbers are stripped. -/
def StripsNumbers (lines : List JsString) : Prop :=
  (∃ line ∈ lines, isContentLine line = true) ∧ ∀ line ∈ lines, isContentLine line = true → isHlPrefixed line = true

theorem strips_iff (lines : List JsString) :
    ((collectLinePrefixStats lines).nonEmpty - (collectLinePrefixStats lines).headerCount > 0 ∧
      (collectLinePrefixStats lines).hashPrefixCount =
        (collectLinePrefixStats lines).nonEmpty - (collectLinePrefixStats lines).headerCount) ↔ StripsNumbers lines := by
  obtain ⟨header,nonEmpty,hash⟩ := stats_counts lines ⟨0,0,0,0,0,0⟩
  have content : (collectLinePrefixStats lines).nonEmpty - (collectLinePrefixStats lines).headerCount =
      lines.countP isContentLine := by
    unfold collectLinePrefixStats
    dsimp only at header nonEmpty
    omega
  have prefixed : (collectLinePrefixStats lines).hashPrefixCount =
      lines.countP fun line => isContentLine line && isHlPrefixed line := by
    unfold collectLinePrefixStats
    rw [hash, Nat.zero_add]
  rw [content, prefixed, StripsNumbers, ← countP_and_all, gt_iff_lt, List.countP_pos_iff]

def keptLines (lines : List JsString) : List JsString :=
  lines.filter fun line => !isTruncationNotice line && !isHlHeader line

theorem stripHashline_strips {lines : List JsString} (strips : StripsNumbers lines) :
    stripHashlinePrefixes lines = (keptLines lines).map stripLeadingHashlinePrefixes ∧
      stripNewLinePrefixes lines = (keptLines lines).map stripLeadingHashlinePrefixes := by
  obtain ⟨some',all⟩ := (strips_iff lines).mpr strips
  have nonEmpty : (collectLinePrefixStats lines).nonEmpty ≠ 0 := by omega
  constructor
  · unfold stripHashlinePrefixes
    dsimp only
    rw [if_neg nonEmpty, if_neg (by simp [all]; omega)]
    rfl
  · unfold stripNewLinePrefixes
    dsimp only
    rw [if_neg nonEmpty]
    simp [all, some', keptLines]

theorem stripHashline_keeps {lines : List JsString} (keeps : ¬ StripsNumbers lines) : stripHashlinePrefixes lines = lines := by
  rw [← strips_iff] at keeps
  unfold stripHashlinePrefixes
  dsimp only
  split
  · rfl
  · rw [if_pos]
    simp
    omega

/-- Without the numbers stripped, no line but a notice goes. -/
theorem stripNewLine_keeps {lines : List JsString} (keeps : ¬ StripsNumbers lines) :
    stripNewLinePrefixes lines = lines ∨
      ∃ change, stripNewLinePrefixes lines = (lines.filter fun line => !isTruncationNotice line).map change := by
  have unstripped : ((collectLinePrefixStats lines).nonEmpty - (collectLinePrefixStats lines).headerCount > 0 &&
      (collectLinePrefixStats lines).hashPrefixCount ==
        (collectLinePrefixStats lines).nonEmpty - (collectLinePrefixStats lines).headerCount) = false := by
    rw [← strips_iff] at keeps
    simpa using keeps
  unfold stripNewLinePrefixes
  dsimp only
  rw [unstripped]
  split
  · exact .inl rfl
  · split
    · exact .inl rfl
    · simp only [Bool.false_and, Bool.not_false, Bool.and_true]
      exact .inr ⟨_,rfl⟩

/- Every line of a header is dropped, as a header or as a notice. -/
def Recognized (header : JsString) : Prop :=
  ∀ line ∈ splitLines header, isTruncationNotice line = true ∨ isHlHeader line = true

section read
variable {header : List JsString} {lines : List JsString} {n : Nat}

theorem numbered_mem {row : JsString} (mem : row ∈ numberedFrom n lines) :
    ∃ k, ∃ line ∈ lines, row = formatNumberedLine k line := by
  induction lines generalizing n with
  | nil => exact absurd mem List.not_mem_nil
  | cons line lines ih =>
    rcases List.mem_cons.mp mem with rfl | later
    · exact ⟨n,line,List.mem_cons_self,rfl⟩
    · obtain ⟨k,other,inside,row⟩ := ih later
      exact ⟨k,other,List.mem_cons_of_mem line inside,row⟩

theorem numbered_length (n : Nat) (lines : List JsString) : (numberedFrom n lines).length = lines.length := by
  induction lines generalizing n with
  | nil => rfl
  | cons line lines ih => simp [numberedFrom, ih]

theorem numbered_kept (n : Nat) (lines : List JsString) : keptLines (numberedFrom n lines) = numberedFrom n lines := by
  refine List.filter_eq_self.mpr fun row mem => ?_
  obtain ⟨k,line,-,rfl⟩ := numbered_mem mem
  rw [numbered_notice, numbered_header]
  rfl

theorem numbered_content (k : Nat) (line : JsString) : isContentLine (formatNumberedLine k line) = true := by
  obtain ⟨c,digits,text,-⟩ := numbered_lead k line
  have some' : (formatNumberedLine k line).isEmpty = false := by
    rw [text]
    rfl
  rw [isContentLine, some', numbered_notice, numbered_header]
  rfl

theorem strip_numbers (plain : ∀ line ∈ lines, isHlPrefixed line = false) (n : Nat) :
    (numberedFrom n lines).map stripLeadingHashlinePrefixes = lines := by
  induction lines generalizing n with
  | nil => rfl
  | cons line lines ih =>
    rw [numberedFrom, List.map_cons, strip_numbered n (plain line List.mem_cons_self),
      ih fun other mem => plain other (List.mem_cons_of_mem line mem)]

/-- The rows of a recognized header go and the numbers are stripped. -/
theorem recognized_strips (recognized : ∀ line ∈ header, isTruncationNotice line = true ∨ isHlHeader line = true)
    (some' : lines ≠ []) (n : Nat) : StripsNumbers (header ++ numberedFrom n lines) ∧
      keptLines (header ++ numberedFrom n lines) = numberedFrom n lines := by
  constructor
  · constructor
    · cases lines with
      | nil => exact absurd rfl some'
      | cons line lines =>
        exact ⟨_,List.mem_append_right _ List.mem_cons_self,numbered_content n line⟩
    · intro row mem content
      rcases List.mem_append.mp mem with early | late
      · rcases recognized row early with notice | isHeader
        · simp [isContentLine, notice] at content
        · simp [isContentLine, isHeader] at content
      · obtain ⟨k,line,-,rfl⟩ := numbered_mem late
        exact numbered_prefixed k line
  · have none' : keptLines header = [] := by
      refine List.filter_eq_nil_iff.mpr fun row mem => ?_
      rcases recognized row mem with notice | isHeader
      · simp [notice]
      · simp [isHeader]
    have numbers := numbered_kept n lines
    unfold keptLines at none' numbers ⊢
    rw [List.filter_append, none', numbers, List.nil_append]

/-- A row of the header that is not recognized stays, whatever else happens. -/
theorem unrecognized_longer {row : JsString} (mem : row ∈ header) (notice : isTruncationNotice row = false)
    (isHeader : isHlHeader row = false) (n : Nat) :
    lines.length < (stripHashlinePrefixes (header ++ numberedFrom n lines)).length ∧
      lines.length < (stripNewLinePrefixes (header ++ numberedFrom n lines)).length := by
  have headed : 0 < header.length := List.length_pos_of_mem mem
  have whole : lines.length < (header ++ numberedFrom n lines).length := by
    rw [List.length_append, numbered_length]
    omega
  by_cases strips : StripsNumbers (header ++ numberedFrom n lines)
  · obtain ⟨strict,opportunistic⟩ := stripHashline_strips strips
    have stays : row ∈ keptLines header := List.mem_filter.mpr ⟨mem,by rw [notice, isHeader]; rfl⟩
    have more : lines.length < (keptLines (header ++ numberedFrom n lines)).length := by
      have numbers := congrArg List.length (numbered_kept n lines)
      have kept := List.length_pos_of_mem stays
      unfold keptLines at numbers kept ⊢
      rw [List.filter_append, List.length_append, numbers, numbered_length]
      omega
    rw [strict, opportunistic, List.length_map]
    exact ⟨more,more⟩
  · refine ⟨by rw [stripHashline_keeps strips]; exact whole,?_⟩
    rcases stripNewLine_keeps strips with same | ⟨change,changed⟩
    · rw [same]
      exact whole
    · have stays : row ∈ header.filter fun line => !isTruncationNotice line := List.mem_filter.mpr ⟨mem,by rw [notice]; rfl⟩
      have numbers : (numberedFrom n lines).filter (fun line => !isTruncationNotice line) = numberedFrom n lines := by
        refine List.filter_eq_self.mpr fun other inside => ?_
        obtain ⟨k,line,-,rfl⟩ := numbered_mem inside
        rw [numbered_notice]
        rfl
      have kept := List.length_pos_of_mem stays
      rw [changed, List.length_map, List.filter_append, List.length_append, numbers, numbered_length]
      omega

end read

theorem numbered_unbroken (k : Nat) {line : JsString} (oneLine : lineFeed ∉ line) : lineFeed ∉ formatNumberedLine k line := by
  have colon : lineFeed ∉ lineBodySep := by decide
  have digits := (decimal_unbroken k).1
  simp [formatNumberedLine, digits, colon, oneLine]

theorem split_numbered (text : JsString) (n : Nat) :
    splitLines (formatNumberedLines text n) = numberedFrom n (splitLines text) := by
  refine split_join _ ?_ ?_
  · intro row mem
    obtain ⟨k,line,inside,rfl⟩ := numbered_mem mem
    exact numbered_unbroken k (split_clean text line inside)
  · intro none'
    have sizes := numbered_length n (splitLines text)
    rw [none'] at sizes
    exact splitLines_ne_nil text (List.eq_nil_of_length_eq_zero sizes.symm)

/- What a read shows: the header and the numbered lines under it. -/
def readText (path tag text : JsString) (startLine : Nat) : JsString :=
  formatHashlineHeader path tag ++ lineFeed :: formatNumberedLines text startLine

theorem split_read (path tag text : JsString) (n : Nat) :
    splitLines (readText path tag text n) = splitLines (formatHashlineHeader path tag) ++ numberedFrom n (splitLines text) := by
  rw [← split_numbered, readText, splitLines, List.splitOn_append_cons_self]
  rfl

theorem withoutReturns_join (lines : List JsString) :
    withoutReturns (joinLines lines) = joinLines (lines.map withoutReturns) := by
  induction lines with
  | nil => rfl
  | cons line lines ih =>
    cases lines with
    | nil => simp [joinLines, List.intercalate]
    | cons next lines =>
      have more : (next :: lines).map withoutReturns ≠ [] := by simp
      rw [List.map_cons, join_cons_more more, ← ih, join_cons_more (List.cons_ne_nil next lines)]
      simp [withoutReturns, lineFeed, carriageReturn]

theorem split_withoutReturns (text : JsString) : splitLines (withoutReturns text) = (splitLines text).map withoutReturns := by
  have joined := withoutReturns_join (splitLines text)
  rw [join_split] at joined
  rw [joined]
  refine split_join _ ?_ (by simp [splitLines_ne_nil])
  intro line mem
  obtain ⟨source,inside,rfl⟩ := List.mem_map.mp mem
  exact fun feed => split_clean text source inside (List.mem_of_mem_filter feed)

theorem withoutReturns_numbered (k : Nat) (line : JsString) :
    withoutReturns (formatNumberedLine k line) = formatNumberedLine k (withoutReturns line) := by
  have digits : (decimal k).filter (· != carriageReturn) = decimal k := by
    refine List.filter_eq_self.mpr fun c mem => ?_
    simpa using (digit_units (decimal_digits k c mem)).2.2.2.2.2.2.1
  have colon : lineBodySep.filter (· != carriageReturn) = lineBodySep := by decide
  simp [formatNumberedLine, withoutReturns, digits, colon]

theorem withoutReturns_rows (n : Nat) (lines : List JsString) :
    (numberedFrom n lines).map withoutReturns = numberedFrom n (lines.map withoutReturns) := by
  induction lines generalizing n with
  | nil => rfl
  | cons line lines ih => simp [numberedFrom, withoutReturns_numbered, ih]

/-- The last row has a number, so there is no final line feed to take off. -/
theorem read_untrimmed (path tag text : JsString) (n : Nat) : (readText path tag text n).getLast? ≠ some lineFeed := by
  intro last
  obtain ⟨front,ends⟩ := List.getLast?_eq_some_iff.mp last
  have pieces : splitLines (readText path tag text n) = splitLines front ++ [[]] := by
    rw [ends]
    simp [splitLines, List.splitOn_append_cons_self]
  have some' : numberedFrom n (splitLines text) ≠ [] := by
    rw [← split_numbered]
    exact splitLines_ne_nil _
  have empty : ([] : JsString) ∈ numberedFrom n (splitLines text) := by
    rw [split_read] at pieces
    have lasts := congrArg List.getLast? pieces
    rw [List.getLast?_append_of_ne_nil _ some', List.getLast?_concat] at lasts
    exact List.mem_of_getLast? lasts
  obtain ⟨k,line,-,row⟩ := numbered_mem empty
  obtain ⟨c,digits,lead,-⟩ := numbered_lead k line
  rw [lead] at row
  contradiction

theorem parse_read (path tag text : JsString) (n : Nat) : hashlineParseText (.text (readText path tag text n)) =
    stripNewLinePrefixes (splitLines (withoutReturns (formatHashlineHeader path tag)) ++
      numberedFrom n ((splitLines text).map withoutReturns)) := by
  simp only [hashlineParseText]
  rw [if_neg (read_untrimmed path tag text n), split_withoutReturns, split_read, List.map_append, withoutReturns_rows,
    ← split_withoutReturns]

theorem withoutReturns_eq {line : JsString} (none' : carriageReturn ∉ line) : withoutReturns line = line :=
  List.filter_eq_self.mpr fun c mem => by
    simpa using fun same : c = carriageReturn => none' (same ▸ mem)

theorem return_in_line {text : JsString} (some' : carriageReturn ∈ text) : ∃ line ∈ splitLines text, carriageReturn ∈ line := by
  rw [← text_whole_last text] at some'
  rw [split_whole_last text]
  rcases List.mem_append.mp some' with early | last
  · obtain ⟨line,mem,inside⟩ := List.mem_flatMap.mp early
    rcases List.mem_append.mp inside with here | feed
    · exact ⟨line,List.mem_append_left _ mem,here⟩
    · exact absurd (List.mem_singleton.mp feed) (by decide)
  · exact ⟨lastLine text,List.mem_append_right _ List.mem_cons_self,last⟩

section result
variable {header : List JsString} {text : JsString}

theorem unrecognized_row (unrecognized : ¬ ∀ line ∈ header, isTruncationNotice line = true ∨ isHlHeader line = true) :
    ∃ row ∈ header, isTruncationNotice row = false ∧ isHlHeader row = false := by
  by_contra none'
  refine unrecognized fun row mem => ?_
  cases notice : isTruncationNotice row with
  | true => exact .inl rfl
  | false =>
    refine .inr ?_
    by_contra other
    exact none' ⟨row,mem,notice,Bool.eq_false_of_not_eq_true other⟩

theorem strip_rows_iff (plain : ∀ line ∈ splitLines text, isHlPrefixed line = false) (n : Nat) :
    (stripHashlinePrefixes (header ++ numberedFrom n (splitLines text)) = splitLines text ↔
      ∀ line ∈ header, isTruncationNotice line = true ∨ isHlHeader line = true) ∧
    (stripNewLinePrefixes (header ++ numberedFrom n (splitLines text)) = splitLines text ↔
      ∀ line ∈ header, isTruncationNotice line = true ∨ isHlHeader line = true) := by
  by_cases recognized : ∀ line ∈ header, isTruncationNotice line = true ∨ isHlHeader line = true
  · obtain ⟨strips,kept⟩ := recognized_strips recognized (splitLines_ne_nil text) n
    obtain ⟨strict,opportunistic⟩ := stripHashline_strips strips
    rw [strict, opportunistic, kept, strip_numbers plain]
    exact ⟨⟨fun _ => recognized,fun _ => rfl⟩,⟨fun _ => recognized,fun _ => rfl⟩⟩
  · obtain ⟨row,mem,notice,isHeader⟩ := unrecognized_row recognized
    obtain ⟨strict,opportunistic⟩ := @unrecognized_longer header (splitLines text) row mem notice isHeader n
    refine ⟨⟨fun same => ?_,fun all => absurd all recognized⟩,⟨fun same => ?_,fun all => absurd all recognized⟩⟩
    · rw [same] at strict
      omega
    · rw [same] at opportunistic
      omega

/-- A string loses its carriage returns first, the text's among them. -/
theorem parse_rows_iff (plain : ∀ line ∈ splitLines text, isHlPrefixed line = false) (n : Nat) :
    stripNewLinePrefixes (header ++ numberedFrom n ((splitLines text).map withoutReturns)) = splitLines text ↔
      (∀ line ∈ header, isTruncationNotice line = true ∨ isHlHeader line = true) ∧ carriageReturn ∉ text := by
  by_cases recognized : ∀ line ∈ header, isTruncationNotice line = true ∨ isHlHeader line = true
  · by_cases returns : carriageReturn ∈ text
    · refine ⟨fun same => ?_,fun both => absurd returns both.2⟩
      have some' : (splitLines text).map withoutReturns ≠ [] := by simp [splitLines_ne_nil]
      obtain ⟨strips,kept⟩ := recognized_strips recognized some' n
      rw [(stripHashline_strips strips).2, kept] at same
      obtain ⟨line,mem,inside⟩ := return_in_line returns
      rw [← same] at mem
      obtain ⟨row,among,rfl⟩ := List.mem_map.mp mem
      have source := (passes_suffix _ row).subset inside
      rw [← withoutReturns_rows] at among
      obtain ⟨whole,-,rfl⟩ := List.mem_map.mp among
      exact absurd (List.of_mem_filter source) (by simp)
    · have unchanged : (splitLines text).map withoutReturns = splitLines text := by
        have each : ∀ line ∈ splitLines text, withoutReturns line = id line := fun line mem =>
          withoutReturns_eq fun inside => returns (line_subset mem inside)
        rw [List.map_congr_left each, List.map_id]
      rw [unchanged, (strip_rows_iff plain n).2]
      simp [returns]
  · obtain ⟨row,mem,notice,isHeader⟩ := unrecognized_row recognized
    have longer := (@unrecognized_longer header ((splitLines text).map withoutReturns) row mem notice isHeader n).2
    refine ⟨fun same => ?_,fun both => absurd both.1 recognized⟩
    rw [same, List.length_map] at longer
    omega

end result

theorem header_withoutReturns {path tag : JsString} (isTag : IsTag tag) :
    withoutReturns (formatHashlineHeader path tag) = formatHashlineHeader (withoutReturns path) tag := by
  have kept : withoutReturns tag = tag :=
    withoutReturns_eq fun mem => (hexDigits_units _ (isTag.2 _ mem)).2.2.2.2.2.2 rfl
  unfold withoutReturns at kept ⊢
  rw [header_text, header_text, List.filter_cons, if_pos (by decide), List.filter_append, List.filter_cons, if_pos (by decide),
    kept]

theorem unrecognized_line {path tag : JsString} (isTag : IsTag tag) (oneLine : lineFeed ∉ path) :
    ¬ Recognized (formatHashlineHeader path tag) := by
  have rows := split_join [formatHashlineHeader path tag] (by simpa using header_one_line isTag oneLine) (by simp)
  have joined : joinLines [formatHashlineHeader path tag] = formatHashlineHeader path tag := by
    simp [joinLines, List.intercalate]
  rw [joined] at rows
  intro recognized
  unfold Recognized at recognized
  rw [rows] at recognized
  rcases recognized _ List.mem_cons_self with notice | isHeader
  · rw [header_text, notice_lead _ (by decide)] at notice
    contradiction
  · rw [header_unrecognized isTag] at isHeader
    contradiction

/-- The numbers of a read come off again exactly when every line of its header is taken for a header or a notice, and,
where the read is given as one string, the text has no carriage return. A header of one line with its four-digit tag
never is. -/
theorem prefixes_undone_iff {path tag text : JsString} (isTag : IsTag tag)
    (plain : ∀ line ∈ splitLines text, isHlPrefixed line = false ∧ isHlHeader line = false) (startLine : Nat) :
    (stripHashlinePrefixes (splitLines (readText path tag text startLine)) = splitLines text ↔
      Recognized (formatHashlineHeader path tag)) ∧
    (hashlineParseText (.lines (splitLines (readText path tag text startLine))) = splitLines text ↔
      Recognized (formatHashlineHeader path tag)) ∧
    (hashlineParseText (.text (readText path tag text startLine)) = splitLines text ↔
      Recognized (withoutReturns (formatHashlineHeader path tag)) ∧ carriageReturn ∉ text) ∧
    (lineFeed ∉ path → ¬ Recognized (formatHashlineHeader path tag) ∧
      ¬ Recognized (withoutReturns (formatHashlineHeader path tag))) := by
  have unprefixed : ∀ line ∈ splitLines text, isHlPrefixed line = false := fun line mem => (plain line mem).1
  refine ⟨?_,?_,?_,fun oneLine => ⟨unrecognized_line isTag oneLine,?_⟩⟩
  · rw [split_read]
    exact (strip_rows_iff unprefixed startLine).1
  · rw [split_read]
    exact (strip_rows_iff unprefixed startLine).2
  · rw [parse_read]
    exact parse_rows_iff unprefixed startLine
  · rw [header_withoutReturns isTag]
    exact unrecognized_line isTag fun mem => oneLine (List.mem_of_mem_filter mem)

theorem prefixes_undone_iff_plain :
    stripHashlinePrefixes (splitLines (readText (js "a.ts") liveTag (js "x\n\ny") 1)) ≠ splitLines (js "x\n\ny") := by
  obtain ⟨strict,-,-,oneLine⟩ := @prefixes_undone_iff (js "a.ts") liveTag (js "x\n\ny") liveTag_isTag (by decide) 1
  exact fun same => (oneLine (by decide)).1 (strict.mp same)

/-- The header is taken for a line of content without a number. -/
theorem header_keeps_numbers : ¬ ∀ path tag text : JsString, IsTag tag →
    (∀ line ∈ splitLines text, isHlPrefixed line = false ∧ isHlHeader line = false) →
    stripHashlinePrefixes (splitLines (readText path tag text 1)) = splitLines text ∧
      hashlineParseText (.text (readText path tag text 1)) = splitLines text := by
  intro claim
  have undone := claim (js "a.ts") liveTag (js "x") liveTag_isTag (by decide)
  exact absurd undone.1 (by decide)

end Hashline
