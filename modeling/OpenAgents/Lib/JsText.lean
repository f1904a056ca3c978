import Mathlib.Data.List.DropRight

/- JavaScript strings as sequences of UTF-16 code units, with the string
   operations whose results do not depend on the host runtime. -/
namespace JsText

abbrev CodeUnit := UInt16
abbrev JsString := List CodeUnit

instance : LawfulBEq JsString := inferInstance

def utf16 (c : Char) : JsString :=
  if c.toNat < 0x10000 then [UInt16.ofNat c.toNat]
  else
    let high := (c.toNat - 0x10000) / 0x400
    let low := (c.toNat - 0x10000) % 0x400
    [UInt16.ofNat (0xD800 + high), UInt16.ofNat (0xDC00 + low)]

/- Every source literal is written through `js`. -/
def js (s : String) : JsString := s.toList.flatMap utf16

def lineFeed : CodeUnit := 10
def carriageReturn : CodeUnit := 13
def space : CodeUnit := 32

/- The `\s` class, which is also the set removed by `trim`. -/
def isWhitespace (c : CodeUnit) : Bool :=
  (9 ≤ c && c ≤ 13) || c == 32 || c == 0xA0 || c == 0x1680 || (0x2000 ≤ c && c ≤ 0x200A) ||
    c == 0x2028 || c == 0x2029 || c == 0x202F || c == 0x205F || c == 0x3000 || c == 0xFEFF

def isDigit (c : CodeUnit) : Bool := 48 ≤ c && c ≤ 57
def isNonZeroDigit (c : CodeUnit) : Bool := 48 < c && c ≤ 57

def trimStart (s : JsString) : JsString := s.dropWhile isWhitespace
def trimEnd (s : JsString) : JsString := s.rdropWhile isWhitespace
def trim (s : JsString) : JsString := trimEnd (trimStart s)

def startsWith (s token : JsString) : Bool := token.isPrefixOf s

def splitLines (s : JsString) : List JsString := s.splitOn lineFeed
def joinLines (lines : List JsString) : JsString := [lineFeed].intercalate lines

/- The fuel is the number itself plus one, which exceeds its digit count. -/
def decimalFuel : Nat → Nat → JsString
  | 0, _ => []
  | fuel + 1, n =>
      if n < 10 then [UInt16.ofNat (48 + n)]
      else decimalFuel fuel (n / 10) ++ [UInt16.ofNat (48 + n % 10)]

def decimal (n : Nat) : JsString := decimalFuel (n + 1) n

def hexDigit (n : Nat) : CodeUnit := UInt16.ofNat (if n < 10 then 48 + n else 87 + n)

def unicodeEscape (c : CodeUnit) : JsString :=
  js "\\u" ++ [hexDigit (c.toNat / 4096), hexDigit (c.toNat / 256 % 16),
    hexDigit (c.toNat / 16 % 16), hexDigit (c.toNat % 16)]

def isHighSurrogate (c : CodeUnit) : Bool := 0xD800 ≤ c && c ≤ 0xDBFF
def isLowSurrogate (c : CodeUnit) : Bool := 0xDC00 ≤ c && c ≤ 0xDFFF

def quoteUnit (c : CodeUnit) : JsString :=
  if c == 34 then js "\\\""
  else if c == 92 then js "\\\\"
  else if c == 8 then js "\\b"
  else if c == 9 then js "\\t"
  else if c == 10 then js "\\n"
  else if c == 12 then js "\\f"
  else if c == 13 then js "\\r"
  else if c < 32 then unicodeEscape c
  else [c]

/- A surrogate is kept when paired and escaped when alone. -/
def quoteBody : JsString → JsString
  | [] => []
  | [c] => if isHighSurrogate c || isLowSurrogate c then unicodeEscape c else quoteUnit c
  | c :: d :: rest =>
      if isHighSurrogate c && isLowSurrogate d then c :: d :: quoteBody rest
      else if isHighSurrogate c || isLowSurrogate c then unicodeEscape c ++ quoteBody (d :: rest)
      else quoteUnit c ++ quoteBody (d :: rest)

/- `JSON.stringify` of a string. -/
def quote (s : JsString) : JsString := js "\"" ++ quoteBody s ++ js "\""

theorem digit_unit (d : Nat) (small : d < 10) :
    isDigit (UInt16.ofNat (48 + d)) = true ∧ (UInt16.ofNat (48 + d)).toNat = 48 + d := by
  have each : ∀ k : Fin 10, isDigit (UInt16.ofNat (48 + k.1)) = true ∧
      (UInt16.ofNat (48 + k.1)).toNat = 48 + k.1 := by decide
  exact each ⟨d,small⟩

theorem decimalFuel_digits (fuel n : Nat) : ∀ c ∈ decimalFuel fuel n, isDigit c = true := by
  induction fuel generalizing n with
  | zero => simp [decimalFuel]
  | succ fuel ih =>
    simp only [decimalFuel]
    split
    · rename_i small
      simpa using (digit_unit n small).1
    · intro c mem
      rcases List.mem_append.mp mem with early | last
      · exact ih (n / 10) c early
      · obtain rfl : c = UInt16.ofNat (48 + n % 10) := by simpa using last
        exact (digit_unit (n % 10) (Nat.mod_lt n (by omega))).1

theorem decimalFuel_value (fuel n : Nat) (enough : n < fuel) :
    (decimalFuel fuel n).foldl (fun value c => value * 10 + (c.toNat - 48)) 0 = n := by
  induction fuel generalizing n with
  | zero => omega
  | succ fuel ih =>
    rw [decimalFuel]
    split
    · simp
      omega
    · rw [List.foldl_append, ih (n / 10) (by omega), List.foldl_cons, List.foldl_nil, (digit_unit (n % 10) (by omega)).2]
      omega

theorem decimal_digits (n : Nat) : ∀ c ∈ decimal n, isDigit c = true := decimalFuel_digits (n + 1) n

theorem decimalFuel_first (fuel n : Nat) (enough : n < fuel) (positive : 1 ≤ n) :
    ∃ c rest, decimalFuel fuel n = c :: rest ∧ isNonZeroDigit c = true := by
  induction fuel generalizing n with
  | zero => omega
  | succ fuel ih =>
    simp only [decimalFuel]
    split
    · rename_i small
      have each : ∀ k : Fin 10, 1 ≤ k.1 → isNonZeroDigit (UInt16.ofNat (48 + k.1)) = true := by decide
      exact ⟨_,[],rfl,each ⟨n,small⟩ positive⟩
    · obtain ⟨c,rest,digits,first⟩ := ih (n / 10) (by omega) (by omega)
      exact ⟨c,rest ++ [UInt16.ofNat (48 + n % 10)],by rw [digits]; rfl,first⟩

theorem decimal_first {n : Nat} (positive : 1 ≤ n) :
    ∃ c rest, decimal n = c :: rest ∧ isNonZeroDigit c = true :=
  decimalFuel_first (n + 1) n (by omega) positive

theorem join_split (s : JsString) : joinLines (splitLines s) = s :=
  List.intercalate_splitOn lineFeed

theorem split_join (lines : List JsString) (clean : ∀ line ∈ lines, lineFeed ∉ line)
    (nonempty : lines ≠ []) : splitLines (joinLines lines) = lines :=
  List.splitOn_intercalate lineFeed clean nonempty

theorem split_clean (s : JsString) : ∀ line ∈ splitLines s, lineFeed ∉ line := by
  induction s with
  | nil =>
    intro line mem
    obtain rfl : line = [] := by simpa [splitLines, List.splitOn_nil] using mem
    exact List.not_mem_nil
  | cons c s ih =>
    intro line mem
    rw [splitLines, List.splitOn_cons_eq_if_modifyHead] at mem
    split at mem
    · rcases List.mem_cons.mp mem with rfl | later
      · exact List.not_mem_nil
      · exact ih line later
    · rename_i visible
      have other : c ≠ lineFeed := by simpa using visible
      have nonempty : s.splitOn lineFeed ≠ [] := List.splitOn_ne_nil lineFeed s
      cases rows : s.splitOn lineFeed with
      | nil => exact absurd rows nonempty
      | cons first rest =>
        simp only [splitLines, rows] at ih mem
        rcases List.mem_cons.mp mem with rfl | later
        · have clean := ih first (by simp)
          simp [clean, other.symm]
        · exact ih line (List.mem_cons_of_mem first later)

end JsText

/- What is left of a text once the white space at its ends is taken off. -/
namespace JsText

variable {back : JsString} {first : CodeUnit}

theorem rdropWhile_append {p : CodeUnit → Bool} (front : JsString) (some' : back.rdropWhile p ≠ []) :
    (front ++ back).rdropWhile p = front ++ back.rdropWhile p := by
  induction back using List.reverseRecOn with
  | nil => exact absurd (by rfl) some'
  | append_singleton back last ih =>
    rw [← List.append_assoc]
    by_cases dropped : p last = true
    · rw [List.rdropWhile_concat_pos p _ last dropped] at some' ⊢
      rw [List.rdropWhile_concat_pos p _ last dropped]
      exact ih some'
    · rw [List.rdropWhile_concat_neg p _ last dropped, List.rdropWhile_concat_neg p _ last dropped, List.append_assoc]

theorem trimEnd_append (front : JsString) (visible : trimEnd back ≠ []) :
    trimEnd (front ++ back) = front ++ trimEnd back := rdropWhile_append front visible

theorem trimEnd_append_blank (front : JsString) (blank : trimEnd back = []) : trimEnd (front ++ back) = trimEnd front := by
  have spaces : ∀ c ∈ back, isWhitespace c = true := List.rdropWhile_eq_nil_iff.mp blank
  clear blank
  induction back using List.reverseRecOn with
  | nil => rw [List.append_nil]
  | append_singleton back last ih =>
    rw [← List.append_assoc, trimEnd, List.rdropWhile_concat_pos _ _ last (spaces last (by simp))]
    exact ih fun c mem => spaces c (List.mem_append_left _ mem)

theorem trim_trim (s : JsString) : trim (trim s) = trim s := by
  have started : trimStart (trim s) = trim s := by
    cases is : trim s with
    | nil => rfl
    | cons c rest =>
      have stopped := List.head?_dropWhile_not isWhitespace s
      obtain ⟨tail,begins⟩ : c :: rest <+: trimStart s := is ▸ List.rdropWhile_prefix isWhitespace (trimStart s)
      rw [← trimStart, ← begins] at stopped
      have visible : isWhitespace c = false := stopped
      rw [trimStart, List.dropWhile_cons, visible]
      rfl
  rw [trim, started, trim, trimEnd, trimEnd, List.rdropWhile_idempotent]

theorem trim_sublist (path : JsString) : (trim path).Sublist path :=
  (List.rdropWhile_prefix _ _).sublist.trans (List.dropWhile_sublist _)

theorem trimmed_visible {path : JsString} (trimmed : trim path = path) :
    ∀ c ∈ path.head?, isWhitespace c = false := by
  intro c mem
  obtain ⟨tail,rfl⟩ := List.head?_eq_some_iff.mp mem
  by_contra blank
  have started : trimStart (c :: tail) = trimStart tail := by
    have blank' : isWhitespace c = true := by simpa using blank
    simp [trimStart, blank']
  have early : (trim (c :: tail)).length ≤ (trimStart tail).length := by
    rw [trim, started]
    exact (List.rdropWhile_prefix isWhitespace (trimStart tail)).length_le
  have later : (trimStart tail).length ≤ tail.length := (List.dropWhile_sublist isWhitespace).length_le
  rw [trimmed, List.length_cons] at early
  omega

/-- A text without white space at its ends, and not empty. -/
def Clean (text : JsString) : Prop := text ≠ [] ∧ trim text = text

theorem clean_trim {text : JsString} (some' : trim text ≠ []) : Clean (trim text) := ⟨some',trim_trim text⟩

theorem clean_end {text : JsString} (clean : Clean text) : trimEnd text = text := by
  have started := List.dropWhile_suffix isWhitespace (l := text)
  have whole : (trim text).length = text.length := by rw [clean.2]
  have less : (trim text).length ≤ (trimStart text).length := (List.rdropWhile_prefix isWhitespace (trimStart text)).length_le
  have same : trimStart text = text := started.eq_of_length (Nat.le_antisymm started.length_le (by rw [← whole]; exact less))
  have ends := clean.2
  rwa [trim, same] at ends

theorem clean_start {text : JsString} (clean : Clean text) : trimStart text = text := by
  cases text with
  | nil => rfl
  | cons c rest =>
    have visible : isWhitespace c = false := trimmed_visible clean.2 c rfl
    rw [trimStart, List.dropWhile_cons, visible]
    rfl

/-- White space before a clean text goes, and what stands before it stays. -/
theorem trim_marked (marker : JsString) {text : JsString} (visible : isWhitespace first = false) (clean : Clean text) : trim (first :: marker ++ text) = first :: marker ++ text := by
  have front : trimStart (first :: marker ++ text) = first :: marker ++ text := by
    rw [trimStart, List.cons_append, List.dropWhile_cons, visible]
    rfl
  rw [trim, front, trimEnd_append _ (by rw [clean_end clean]; exact clean.1), clean_end clean]

/-- Behind its first letters a clean text is clean up to the white space there. -/
theorem clean_drop {rest : JsString} (clean : Clean (first :: rest)) (some' : trimStart rest ≠ []) :
    Clean (trimStart rest) := by
  have suffix : trimStart rest <:+ first :: rest := (List.dropWhile_suffix isWhitespace).trans (List.suffix_cons first rest)
  have started : trimStart (trimStart rest) = trimStart rest := List.dropWhile_idempotent isWhitespace rest
  refine ⟨some',?_⟩
  rw [trim, started, trimEnd, List.rdropWhile_eq_self_iff]
  intro nonempty
  have visible := List.rdropWhile_eq_self_iff.mp (clean_end clean) (List.cons_ne_nil _ _)
  rwa [suffix.getLast nonempty]

end JsText
