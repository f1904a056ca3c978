import OpenAgents.Hashline.Tokenizer

/- The text of an explicit hunk header, and that the tokenizer reads it back. -/
namespace Hashline
open JsText

theorem decimal_value (n : Nat) : digitsValue (decimal n) = n := decimalFuel_value (n + 1) n (by omega)

def stopsDigits (rest : JsString) : Prop := ∀ c ∈ rest.head?, isDigit c = false

variable {rest : JsString} {n : Nat} {c : CodeUnit} {span : BlockSpan}

theorem takeWhile_decimal (n : Nat) (stops : stopsDigits rest) : (decimal n ++ rest).takeWhile isDigit = decimal n := by
  rw [List.takeWhile_append_of_pos (decimal_digits n)]
  cases rest with
  | nil => simp
  | cons c rest => simp [stops c rfl]

theorem dropWhile_decimal (n : Nat) (stops : stopsDigits rest) : (decimal n ++ rest).dropWhile isDigit = rest := by
  rw [List.dropWhile_append_of_pos (decimal_digits n)]
  cases rest with
  | nil => rfl
  | cons c rest => simp [stops c rfl]

theorem scanLineNumber_decimal (positive : 1 ≤ n) (stops : stopsDigits rest) : scanLineNumber (decimal n ++ rest) = some ⟨n,rest⟩ := by
  obtain ⟨c,tail,digits,first⟩ := decimal_first positive
  have taken := takeWhile_decimal n stops
  have dropped := dropWhile_decimal n stops
  rw [digits, List.cons_append] at taken dropped
  rw [digits, List.cons_append, scanLineNumber, if_pos first, taken, dropped, ← digits, decimal_value]

theorem digit_is_no_blank (digit : isDigit c = true) :
    isWhitespaceCode c = false ∧ c ≠ 45 ∧ c ≠ 0x2026 ∧ c ≠ 46 ∧ c ≠ 58 := by
  simp only [isDigit, Bool.and_eq_true, decide_eq_true_eq, UInt16.le_iff_toNat_le] at digit
  obtain ⟨low,high⟩ := digit
  refine ⟨?_,?_,?_,?_,?_⟩
  · simp only [isWhitespaceCode, Bool.or_eq_false_iff, beq_eq_false_iff_ne, Bool.and_eq_false_iff,
      decide_eq_false_iff_not, UInt16.le_iff_toNat_le]
    refine ⟨?_,.inr ?_⟩
    · rintro rfl
      simp at low
    · simp at low ⊢
      omega
  all_goals
    rintro rfl
    simp at low high

theorem digit_offset (digit : isDigit c = true) : ∃ d : Fin 10, c = UInt16.ofNat (48 + d.1) := by
  simp only [isDigit, Bool.and_eq_true, decide_eq_true_eq, UInt16.le_iff_toNat_le] at digit
  obtain ⟨low,high⟩ := digit
  simp at low high
  refine ⟨⟨c.toNat - 48,by omega⟩,?_⟩
  rw [Nat.add_sub_cancel' low]
  exact (UInt16.ofNat_toNat).symm

theorem decimal_ne_nil (n : Nat) : decimal n ≠ [] := by
  unfold decimal decimalFuel
  split
  · exact List.cons_ne_nil _ _
  · simp

theorem decimal_unbroken (n : Nat) : lineFeed ∉ decimal n ∧ carriageReturn ∉ decimal n := by
  constructor
  · intro mem
    exact absurd (decimal_digits n _ mem) (by decide)
  · intro mem
    exact absurd (decimal_digits n _ mem) (by decide)

theorem nonzero_is_digit (nonzero : isNonZeroDigit c = true) : isDigit c = true := by
  simp only [isNonZeroDigit, isDigit, Bool.and_eq_true, decide_eq_true_eq, UInt16.lt_iff_toNat_lt,
    UInt16.le_iff_toNat_le] at nonzero ⊢
  omega

theorem skipWhitespace_decimal (rest : JsString) (positive : 1 ≤ n) :
    skipWhitespace (decimal n ++ rest) = decimal n ++ rest := by
  obtain ⟨c,tail,digits,first⟩ := decimal_first positive
  have visible := (digit_is_no_blank (nonzero_is_digit first)).1
  simp [digits, skipWhitespace, visible]

theorem dropRangeSeparator_decimal (rest : JsString) (positive : 1 ≤ n) :
    dropRangeSeparator (decimal n ++ rest) = decimal n ++ rest := by
  obtain ⟨c,tail,digits,first⟩ := decimal_first positive
  obtain ⟨visible,minus,ellipsis,dot,_⟩ := digit_is_no_blank (nonzero_is_digit first)
  rw [digits, List.cons_append]
  cases tail ++ rest <;> simp [dropRangeSeparator, visible, minus, ellipsis, dot]

theorem skipWhitespace_space (rest : JsString) :
    skipWhitespace (space :: rest) = skipWhitespace rest := rfl

def rangeText (span : BlockSpan) : JsString := decimal span.start ++ js ".." ++ decimal span.stop

theorem scanHeaderRange_text (start : 1 ≤ span.start) (stop : 1 ≤ span.stop) (stops : stopsDigits rest)
    (trimmed : skipWhitespace rest = rest) :
    scanHeaderRange (space :: (rangeText span ++ rest)) =
      some ⟨⟨⟨span.start⟩,⟨span.stop⟩⟩,rest⟩ := by
  have dots : js ".." = [46, 46] := by decide
  have text : rangeText span ++ rest =
      decimal span.start ++ (46 :: 46 :: (decimal span.stop ++ rest)) := by simp [rangeText, dots]
  have blank : skipWhitespace (space :: (rangeText span ++ rest)) =
      decimal span.start ++ (46 :: 46 :: (decimal span.stop ++ rest)) := by
    rw [skipWhitespace_space, text, skipWhitespace_decimal _ start]
  have dot_stops : stopsDigits (46 :: 46 :: (decimal span.stop ++ rest)) := by
    intro c mem
    obtain rfl : c = 46 := by simpa using mem.symm
    decide
  have first := scanLineNumber_decimal start dot_stops
  have dropped : dropRangeSeparator (46 :: 46 :: (decimal span.stop ++ rest)) =
      decimal span.stop ++ rest :=
    calc dropRangeSeparator (46 :: 46 :: (decimal span.stop ++ rest))
        = dropRangeSeparator (decimal span.stop ++ rest) := rfl
      _ = decimal span.stop ++ rest := dropRangeSeparator_decimal rest stop
  obtain ⟨c,tail,digits,nonzero⟩ := decimal_first stop
  have separator : scanRangeSeparator (46 :: 46 :: (decimal span.stop ++ rest)) =
      some (decimal span.stop ++ rest) := by
    rw [digits, List.cons_append] at dropped ⊢
    simp [scanRangeSeparator, dropped, nonzero]
  have second := scanLineNumber_decimal stop stops
  simp only [scanHeaderRange, blank, first, separator, second, trimmed, Option.bind_eq_bind,
    Option.bind_some]

def replaceHeader (span : BlockSpan) : JsString := js "replace " ++ rangeText span ++ js ":"
def deleteHeader (span : BlockSpan) : JsString := js "delete " ++ rangeText span

theorem untilTrimEnd_visible (text : JsString) (c : CodeUnit) (visible : isWhitespaceCode c = false) :
    untilTrimEnd (text ++ [c]) = text ++ [c] := by
  rw [untilTrimEnd, List.rdropWhile_concat_neg _ _ _ (by simp [visible])]

theorem rangeText_last (span : BlockSpan) (stop : 1 ≤ span.stop) :
    ∃ text c, rangeText span = text ++ [c] ∧ isWhitespaceCode c = false := by
  obtain ⟨first,tail,digits,_⟩ := decimal_first stop
  have nonempty : decimal span.stop ≠ [] := by simp [digits]
  refine ⟨decimal span.start ++ js ".." ++ (decimal span.stop).dropLast,
    (decimal span.stop).getLast nonempty,?_,?_⟩
  · simp [rangeText, List.dropLast_append_getLast nonempty]
  · exact (digit_is_no_blank (decimal_digits _ _ (List.getLast_mem nonempty))).1

theorem scanKeyword_here (keyword rest : JsString) :
    scanKeyword (keyword ++ space :: rest) keyword = some (space :: rest) := by
  have here : startsWith (keyword ++ space :: rest) keyword = true :=
    List.isPrefixOf_iff_prefix.mpr (List.prefix_append _ _)
  simp only [scanKeyword, here, if_true, List.drop_left]
  rfl

/-- A digit starts no keyword. -/
theorem scanKeyword_block_number (rest : JsString) (positive : 1 ≤ n) :
    scanKeyword (skipWhitespace (space :: (decimal n ++ rest))) blockKeyword = none := by
  have blank : skipWhitespace (space :: (decimal n ++ rest)) = decimal n ++ rest := by
    rw [skipWhitespace_space, skipWhitespace_decimal rest positive]
  obtain ⟨c,tail,digits,first⟩ := decimal_first positive
  have keyword : blockKeyword = [98, 108, 111, 99, 107] := by decide
  have letter : ¬(98 : CodeUnit) = c := by
    rintro rfl
    exact absurd first (by decide)
  rw [blank, digits]
  simp [scanKeyword, startsWith, keyword, letter]

theorem marker_differs {marker : JsString} (rest : JsString) (star : c ≠ 42) (starred : marker.head? = some 42) : markerLineEquals (c :: rest) marker = false := by
  obtain ⟨tail,rfl⟩ := List.head?_eq_some_iff.mp starred
  simp only [markerLineEquals, beq_eq_false_iff_ne]
  intro same
  have front := List.rdropWhile_prefix isWhitespaceCode (c :: rest)
  rw [untilTrimEnd] at same
  rw [same] at front
  exact star (List.cons_prefix_cons.mp front).1.symm

theorem begin_starred : beginPatchMarker.head? = some 42 := by decide
theorem end_starred : endPatchMarker.head? = some 42 := by decide
theorem abort_starred : abortMarker.head? = some 42 := by decide

/-- A visible unit that begins no keyword. -/
theorem no_hunk_lead (rest : JsString) (visible : isWhitespaceCode c = false) (r : c ≠ 114) (d : c ≠ 100) (i : c ≠ 105) : isHunkLead (c :: rest) = false := by
  have skipped : skipWhitespace (c :: rest) = c :: rest := by simp [skipWhitespace, visible]
  have replace : replaceKeyword = 114 :: js "eplace" := by decide
  have delete : deleteKeyword = 100 :: js "elete" := by decide
  have insert : insertKeyword = 105 :: js "nsert" := by decide
  simp [isHunkLead, skipped, replace, delete, insert, startsWith, List.isPrefixOf, r.symm, d.symm, i.symm]

theorem classify_unled (star : c ≠ 42) (noLead : isHunkLead (c :: rest) = false) :
    classifyKind (c :: rest) =
      match tryParseHeader (c :: rest) with
      | some header => .header header.path header.fileHash
      | none => classifyPlain (c :: rest) := by
  simp only [classifyKind, List.isEmpty_cons, marker_differs rest star begin_starred,
    marker_differs rest star end_starred, marker_differs rest star abort_starred, classifyBody, noLead,
    Bool.false_eq_true, if_false] <;> rfl

theorem classify_hunk {text : JsString} {target : BlockTarget} (kept : untilTrimEnd text = text) (head : text.head? = some c)
    (star : c ≠ 42) (pilcrow : c ≠ 182) (visible : isWhitespaceCode c = false)
    (lead : startsWith text replaceKeyword = true ∨ startsWith text deleteKeyword = true ∨
      startsWith text insertKeyword = true) (scanned : scanHunkAnchor text = some ⟨target,[]⟩) : classifyKind text = .opBlock target := by
  cases text with
  | nil => simp at head
  | cons first rest =>
    obtain rfl : first = c := by simpa using head
    have skipped : skipWhitespace (first :: rest) = first :: rest := by simp [skipWhitespace, visible]
    have noFile : tryParseHeader (first :: rest) = none := by
      have prefixed : filePrefix = [182] := by decide
      have other : ¬(182 : CodeUnit) = first := fun same => pilcrow same.symm
      simp [tryParseHeader, startsWith, prefixed, other]
    have hunk : isHunkLead (first :: rest) = true := by
      rcases lead with here | here | here <;> simp [isHunkLead, skipped, here]
    have header : tryParseHunkHeader (first :: rest) = some target := by
      simp [tryParseHunkHeader, kept, skipped, scanned]
    simp only [classifyKind, List.isEmpty_cons, marker_differs rest star begin_starred,
      marker_differs rest star end_starred, marker_differs rest star abort_starred, noFile, classifyBody,
      hunk, header, Bool.false_eq_true, if_false, if_true]

theorem rangeText_one_line (span : BlockSpan) : lineFeed ∉ rangeText span := by
  have digits : ∀ n : Nat, lineFeed ∉ decimal n := by
    intro n mem
    exact absurd (decimal_digits n lineFeed mem) (by decide)
  have dots : lineFeed ∉ js ".." := by decide
  simp [rangeText, digits, dots]

theorem replaceHeader_one_line (span : BlockSpan) : lineFeed ∉ replaceHeader span := by
  have early : lineFeed ∉ js "replace " := by decide
  have late : lineFeed ∉ js ":" := by decide
  simp [replaceHeader, rangeText_one_line, early, late]

theorem deleteHeader_one_line (span : BlockSpan) : lineFeed ∉ deleteHeader span := by
  have early : lineFeed ∉ js "delete " := by decide
  simp [deleteHeader, rangeText_one_line, early]

theorem noBlock_range (rest : JsString) (start : 1 ≤ span.start) :
    scanKeyword (skipWhitespace (space :: (rangeText span ++ rest))) blockKeyword = none := by
  rw [rangeText, List.append_assoc, List.append_assoc]
  exact scanKeyword_block_number _ start

theorem classify_replaceHeader (start : 1 ≤ span.start) (stop : 1 ≤ span.stop) :
    classifyKind (replaceHeader span) = .opBlock (.replace ⟨⟨span.start⟩,⟨span.stop⟩⟩) := by
  have text : replaceHeader span = replaceKeyword ++ space :: (rangeText span ++ [58]) := by
    have keyword : js "replace " = replaceKeyword ++ [space] := by decide
    have colon : js ":" = [58] := by decide
    simp [replaceHeader, keyword, colon]
  have keyword : replaceKeyword = [114, 101, 112, 108, 97, 99, 101] := by decide
  have head : (replaceHeader span).head? = some 114 := by rw [text, keyword]; rfl
  have kept : untilTrimEnd (replaceHeader span) = replaceHeader span := by
    rw [text, ← List.cons_append, ← List.append_assoc]
    exact untilTrimEnd_visible _ 58 (by decide)
  have skipped : skipWhitespace (replaceHeader span) = replaceHeader span := by
    rw [text, keyword]
    rfl
  have colon_stops : stopsDigits [58] := by
    intro c mem
    obtain rfl : c = 58 := by simpa using mem.symm
    decide
  have range := scanHeaderRange_text start stop colon_stops (by decide)
  have scanned : scanHunkAnchor (replaceHeader span) =
      some ⟨.replace ⟨⟨span.start⟩,⟨span.stop⟩⟩,[]⟩ := by
    simp only [scanHunkAnchor, skipped]
    rw [text, scanKeyword_here]
    simp only [scanReplaceTarget, noBlock_range _ start, range]
    rfl
  refine classify_hunk kept head (by decide) (by decide) (by decide) (.inl ?_) scanned
  rw [text]
  exact List.isPrefixOf_iff_prefix.mpr (List.prefix_append _ _)

theorem classify_deleteHeader (start : 1 ≤ span.start) (stop : 1 ≤ span.stop) :
    classifyKind (deleteHeader span) = .opBlock (.delete ⟨⟨span.start⟩,⟨span.stop⟩⟩) := by
  have text : deleteHeader span = deleteKeyword ++ space :: (rangeText span ++ []) := by
    have keyword : js "delete " = deleteKeyword ++ [space] := by decide
    simp [deleteHeader, keyword]
  have keyword : deleteKeyword = [100, 101, 108, 101, 116, 101] := by decide
  have head : (deleteHeader span).head? = some 100 := by rw [text, keyword]; rfl
  have kept : untilTrimEnd (deleteHeader span) = deleteHeader span := by
    obtain ⟨early,last,digits,visible⟩ := rangeText_last span stop
    rw [text, List.append_nil, digits, ← List.cons_append, ← List.append_assoc]
    exact untilTrimEnd_visible _ last visible
  have skipped : skipWhitespace (deleteHeader span) = deleteHeader span := by
    rw [text, keyword]
    rfl
  have range := scanHeaderRange_text start stop (show stopsDigits [] by simp [stopsDigits]) rfl
  have noReplace : scanKeyword (deleteHeader span) replaceKeyword = none := by
    rw [text, keyword]
    rfl
  have scanned : scanHunkAnchor (deleteHeader span) =
      some ⟨.delete ⟨⟨span.start⟩,⟨span.stop⟩⟩,[]⟩ := by
    simp only [scanHunkAnchor, skipped, noReplace]
    rw [text, scanKeyword_here]
    simp only [scanDeleteTarget, noBlock_range _ start, range]
    rfl
  refine classify_hunk kept head (by decide) (by decide) (by decide) (.inr (.inl ?_)) scanned
  rw [text]
  exact List.isPrefixOf_iff_prefix.mpr (List.prefix_append _ _)

end Hashline
