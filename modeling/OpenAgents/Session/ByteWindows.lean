import OpenAgents.Lib.Utf8

/- Cutting a string to a number of UTF-8 bytes, from its head or from its tail. Only a window of
   the string is encoded, and the window may end or begin inside a surrogate pair. -/
namespace ByteWindows
open JsText Utf8

/- Backwards over bytes that continue a character, and never below the first byte. -/
def retreat (buf : List Nat) : Nat → Nat
  | 0 => 0
  | i + 1 => if isContinuation (buf.getD (i + 1) 0) then retreat buf i else i + 1

def findUtf8BoundaryBackward (buf : List Nat) (cut : Nat) : Nat :=
  let i := min buf.length cut
  if buf.length ≤ i then buf.length else retreat buf i

def findUtf8BoundaryForward (buf : List Nat) (pos : Nat) : Nat := pos + ((buf.drop pos).takeWhile isContinuation).length

structure ByteTruncationResult where
  text : JsString
  bytes : Nat
  deriving DecidableEq

inductive Mode where
  | head
  | tail

def truncateBytesWindowed (data : JsString) (maxBytes : Nat) (mode : Mode) : ByteTruncationResult :=
  if maxBytes = 0 then ⟨[],0⟩
  else if data.length ≤ maxBytes ∧ byteLength data ≤ maxBytes then ⟨data,byteLength data⟩
  else
    match mode with
    | .head =>
        let buf := encode (data.take (min data.length maxBytes))
        let stop := findUtf8BoundaryBackward buf maxBytes
        if stop = 0 then ⟨[],0⟩ else ⟨decode (buf.take stop),(buf.take stop).length⟩
    | .tail =>
        let buf := encode (data.drop (data.length - maxBytes))
        let start := findUtf8BoundaryForward buf (buf.length - maxBytes)
        ⟨decode (buf.drop start),(buf.drop start).length⟩

def truncateHeadBytes (data : JsString) (maxBytes : Nat) : ByteTruncationResult := truncateBytesWindowed data maxBytes .head

def truncateTailBytes (data : JsString) (maxBytes : Nat) : ByteTruncationResult := truncateBytesWindowed data maxBytes .tail

/- The characters that fit, one after the other. -/
def fits : Nat → List Char → List Char
  | _, [] => []
  | room, c :: rest => if size c ≤ room then c :: fits (room - size c) rest else []

/- The characters behind those that have a byte before the position. -/
def behind : Nat → List Char → List Char
  | 0, chars => chars
  | _ + 1, [] => []
  | pos + 1, c :: rest => behind (pos + 1 - size c) rest

theorem fits_begins (room : Nat) (chars : List Char) : fits room chars <+: chars := by
  induction chars generalizing room with
  | nil => exact List.nil_prefix
  | cons c rest ih =>
    rw [fits]
    split
    · exact (List.prefix_cons_inj c).mpr (ih _)
    · exact List.nil_prefix

theorem fits_bytes (room : Nat) (chars : List Char) : (bytes (fits room chars)).length ≤ room := by
  induction chars generalizing room with
  | nil => exact Nat.zero_le room
  | cons c rest ih =>
    rw [fits]
    split
    · rename_i small
      have later := ih (room - size c)
      have width : (encodePoint c.toNat).length = size c := rfl
      rw [bytes_cons, List.length_append]
      omega
    · exact Nat.zero_le room

/-- What fits goes on behind characters that fit, and ends among those that do not. -/
theorem fits_append (room : Nat) (front back : List Char) : fits room (front ++ back) =
    if (bytes front).length ≤ room then front ++ fits (room - (bytes front).length) back else fits room front := by
  induction front generalizing room with
  | nil =>
    have zero : (bytes []).length = 0 := rfl
    rw [zero, if_pos (Nat.zero_le room), Nat.sub_zero]
    rfl
  | cons c front ih =>
    have total : (bytes (c :: front)).length = size c + (bytes front).length := by rw [bytes_cons, List.length_append, size]
    rw [List.cons_append, fits, fits, total]
    by_cases small : size c ≤ room
    · rw [if_pos small, if_pos small, ih]
      by_cases all : (bytes front).length ≤ room - size c
      · rw [if_pos all, if_pos (by omega), List.cons_append, Nat.sub_sub]
      · rw [if_neg all, if_neg (by omega)]
    · rw [if_neg small, if_neg small, if_neg (by omega)]

variable {c : Char} {chars : List Char} {pos i : Nat}

theorem fits_narrow {room : Nat} (large : room < size c) (rest : List Char) : fits room (c :: rest) = [] := by
  rw [fits, if_neg (by omega)]

theorem behind_suffix (pos : Nat) (chars : List Char) : behind pos chars <:+ chars := by
  induction chars generalizing pos with
  | nil =>
    cases pos with
    | zero => exact List.suffix_refl []
    | succ pos => exact List.suffix_refl []
  | cons c rest ih =>
    cases pos with
    | zero => exact List.suffix_refl _
    | succ pos => exact (ih _).trans (List.suffix_cons c rest)

theorem behind_bytes (pos : Nat) (chars : List Char) : (bytes (behind pos chars)).length ≤ (bytes chars).length - pos := by
  induction chars generalizing pos with
  | nil =>
    cases pos with
    | zero => exact Nat.le_refl _
    | succ pos => exact Nat.zero_le _
  | cons c rest ih =>
    cases pos with
    | zero => exact Nat.le_refl _
    | succ pos =>
      have later := ih (pos + 1 - size c)
      rw [size] at later
      rw [behind, size, bytes_cons, List.length_append]
      omega

theorem behind_append (front back : List Char) (k : Nat) : behind ((bytes front).length + k) (front ++ back) = behind k back := by
  induction front with
  | nil => rw [List.nil_append, bytes, List.flatMap_nil, List.length_nil, Nat.zero_add]
  | cons c front ih =>
    have positive := size_pos c
    have count : (bytes (c :: front)).length + k = size c + ((bytes front).length + k) := by
      rw [bytes_cons, List.length_append, size, Nat.add_assoc]
    obtain ⟨j,is⟩ := Nat.exists_eq_succ_of_ne_zero (Nat.ne_of_gt positive)
    have more : size c + ((bytes front).length + k) = (j + ((bytes front).length + k)) + 1 := by omega
    rw [count, more, List.cons_append, behind, ← more, Nat.add_sub_cancel_left, ih]

/-- Behind all of the bytes there is nothing. -/
theorem behind_all (chars : List Char) : behind (bytes chars).length chars = [] := by
  have all := behind_append chars [] 0
  rwa [List.append_nil, Nat.add_zero] at all

/-- More behind the end of what is cut. -/
theorem behind_more (inside : pos ≤ (bytes chars).length) (more : List Char) :
    behind pos (chars ++ more) = behind pos chars ++ more := by
  induction chars generalizing pos with
  | nil => rw [Nat.le_zero.mp inside, behind, behind]
  | cons c rest ih =>
    cases pos with
    | zero => rfl
    | succ pos =>
      rw [bytes_cons, List.length_append] at inside
      rw [List.cons_append, behind, behind, ih]
      rw [size]
      omega

/-- A second cut, further on, is the cut of the whole. -/
theorem behind_behind {first second : Nat} (later : first ≤ second) (chars : List Char) :
    behind (second - ((bytes chars).length - (bytes (behind first chars)).length)) (behind first chars) = behind second chars := by
  induction chars generalizing first second with
  | nil =>
    cases first with
    | zero => rfl
    | succ first =>
      cases second with
      | zero => rfl
      | succ second => rfl
  | cons c rest ih =>
    cases first with
    | zero => rw [behind, Nat.sub_self, Nat.sub_zero]
    | succ first =>
      cases second with
      | zero => exact absurd later (Nat.not_succ_le_zero first)
      | succ second =>
        have shorter := behind_bytes (first + 1 - size c) rest
        have next := @ih (first + 1 - size c) (second + 1 - size c) (by omega)
        have width : (bytes (c :: rest)).length = size c + (bytes rest).length := by rw [bytes_cons, List.length_append, size]
        have gone : second + 1 - (size c + (bytes rest).length - (bytes (behind (first + 1 - size c) rest)).length) =
            second + 1 - size c - ((bytes rest).length - (bytes (behind (first + 1 - size c) rest)).length) := by omega
        rw [behind, behind, width, gone, next]

theorem bytes_first (some' : chars ≠ []) : isContinuation ((bytes chars).getD 0 0) = false := by
  cases chars with
  | nil => contradiction
  | cons c rest =>
    obtain ⟨first,tail,is,begins,_⟩ := encodePoint_bytes c
    rw [bytes_cons, is]
    exact begins

theorem retreat_zero {buf : List Nat} (inside : ∀ j, 1 ≤ j → j ≤ i → isContinuation (buf.getD j 0) = true) :
    retreat buf i = 0 := by
  induction i with
  | zero => rfl
  | succ i ih =>
    rw [retreat, if_pos (inside (i + 1) (by omega) (Nat.le_refl _))]
    exact ih fun j low high => inside j low (by omega)

theorem retreat_append {front back : List Nat} (some' : front ≠ []) (begins : isContinuation (back.getD 0 0) = false) (i : Nat) :
    retreat (front ++ back) (front.length + i) = front.length + retreat back i := by
  have positive := List.length_pos_iff.mpr some'
  have at' : ∀ j, (front ++ back).getD (front.length + j) 0 = back.getD j 0 := by
    intro j
    rw [List.getD_eq_getElem?_getD, List.getElem?_append_right (Nat.le_add_right _ _), Nat.add_sub_cancel_left,
      ← List.getD_eq_getElem?_getD]
  induction i with
  | zero =>
    obtain ⟨k,is⟩ := Nat.exists_eq_succ_of_ne_zero (Nat.ne_of_gt positive)
    have here := at' 0
    rw [Nat.add_zero] at here
    have last : retreat (front ++ back) (k + 1) = k + 1 := by
      rw [is, Nat.succ_eq_add_one] at here
      rw [retreat, here, begins, if_neg Bool.false_ne_true]
    rw [Nat.add_zero, is]
    exact last
  | succ i ih =>
    rw [← Nat.add_assoc, retreat, Nat.add_assoc, at', retreat, ih]
    split
    · rfl
    · rfl

theorem retreat_bytes (inside : i < (bytes chars).length) : retreat (bytes chars) i = (bytes (fits i chars)).length := by
  induction chars generalizing i with
  | nil => exact absurd inside (Nat.not_lt_zero i)
  | cons c rest ih =>
    obtain ⟨first,tail,is,begins,continue'⟩ := encodePoint_bytes c
    have some' : encodePoint c.toNat ≠ [] := by
      rw [is]
      exact List.cons_ne_nil first tail
    rw [bytes_cons] at inside ⊢
    rw [fits]
    split
    · rename_i small
      obtain ⟨k,at'⟩ := Nat.exists_eq_add_of_le small
      rw [size] at at' small
      rw [List.length_append] at inside
      have within : k < (bytes rest).length := by omega
      have more : rest ≠ [] := by
        intro empty
        rw [empty] at within
        exact absurd within (Nat.not_lt_zero k)
      rw [bytes_cons, at', retreat_append some' (bytes_first more), ih within, List.length_append, size, Nat.add_sub_cancel_left]
    · rename_i large
      apply retreat_zero
      intro j low high
      rw [size, is, List.length_cons] at large
      rw [is, List.getD_eq_getElem?_getD, List.getElem?_append_left (by rw [List.length_cons]; omega)]
      obtain ⟨k,at'⟩ := Nat.exists_eq_add_of_le' low
      rw [at', List.getElem?_cons_succ, List.getElem?_eq_getElem (by omega), Option.getD_some]
      exact continue' _ (List.getElem_mem _)

theorem backward_fits (chars : List Char) (cut : Nat) :
    findUtf8BoundaryBackward (bytes chars) cut = (bytes (fits cut chars)).length := by
  have whole : ∀ (chars : List Char) (cut : Nat), (bytes chars).length ≤ cut → fits cut chars = chars := by
    intro chars
    induction chars with
    | nil => exact fun _ _ => rfl
    | cons c rest ih =>
      intro cut all
      rw [bytes_cons, List.length_append] at all
      rw [fits, size, if_pos (by omega), ih _ (by omega)]
  rw [findUtf8BoundaryBackward]
  split
  · rename_i all
    rw [whole chars cut (by omega)]
  · rename_i inside
    rw [Nat.min_eq_right (by omega), retreat_bytes (by omega)]

theorem takeWhile_bytes (chars : List Char) : (bytes chars).takeWhile isContinuation = [] := by
  cases chars with
  | nil => rfl
  | cons c rest =>
    obtain ⟨first,tail,is,begins,_⟩ := encodePoint_bytes c
    rw [bytes_cons, is, List.cons_append, List.takeWhile_cons, begins]
    rfl

theorem forward_behind (inside : pos ≤ (bytes chars).length) :
    (bytes chars).drop (findUtf8BoundaryForward (bytes chars) pos) = bytes (behind pos chars) := by
  rw [findUtf8BoundaryForward]
  induction chars generalizing pos with
  | nil =>
    cases pos with
    | zero => rfl
    | succ pos => exact absurd inside (Nat.not_succ_le_zero pos)
  | cons c rest ih =>
    cases pos with
    | zero => rw [List.drop_zero, takeWhile_bytes, behind, List.length_nil, List.drop_zero]
    | succ pos =>
      obtain ⟨first,tail,is,begins,continue'⟩ := encodePoint_bytes c
      rw [behind, size]
      rw [bytes_cons] at inside ⊢
      rw [List.length_append] at inside
      rcases Nat.le_total (encodePoint c.toNat).length (pos + 1) with beyond | within
      · obtain ⟨k,at'⟩ := Nat.exists_eq_add_of_le beyond
        have skipped : ∀ j, (encodePoint c.toNat ++ bytes rest).drop ((encodePoint c.toNat).length + j) = (bytes rest).drop j := by
          intro j
          rw [← List.drop_drop, List.drop_left]
        rw [at', skipped, Nat.add_assoc, skipped, Nat.add_sub_cancel_left]
        exact ih (by omega)
      · have front : (encodePoint c.toNat ++ bytes rest).drop (pos + 1) = (encodePoint c.toNat).drop (pos + 1) ++ bytes rest :=
          List.drop_append_of_le_length within
        have all : ∀ byte ∈ (encodePoint c.toNat).drop (pos + 1), isContinuation byte = true := by
          intro byte mem
          rw [is, List.drop_succ_cons] at mem
          exact continue' byte (List.mem_of_mem_drop mem)
        have run : ((encodePoint c.toNat).drop (pos + 1) ++ bytes rest).takeWhile isContinuation =
            (encodePoint c.toNat).drop (pos + 1) := by
          rw [List.takeWhile_append_of_pos all, takeWhile_bytes, List.append_nil]
        have end' : pos + 1 + ((encodePoint c.toNat).length - (pos + 1)) = (encodePoint c.toNat).length := by omega
        have none' : pos + 1 - (encodePoint c.toNat).length = 0 := by omega
        rw [front, run, List.length_drop, end', List.drop_left, none', behind]

def replacement : Char := '\uFFFD'

/-- The units of a character above the plane are surrogates, a high one and a low one. -/
theorem utf16_pair (two : (utf16 c).length ≠ 1) : ∃ high low, utf16 c = [high, low] ∧ isHighSurrogate high = true ∧
    isLowSurrogate low = true := by
  have range := char_cases c
  rw [utf16_eq, units] at two ⊢
  split
  · rename_i small
    rw [if_pos small] at two
    exact absurd rfl two
  · rename_i large
    refine ⟨_,_,rfl,?_,?_⟩
    · rw [high_iff, unit_low (by omega)]
      omega
    · rw [low_iff, unit_low (by omega)]
      omega

/-- A window from the head is made of characters, but for half of the last one. -/
theorem take_text (chars : List Char) (m : Nat) : ∃ front back, chars = front ++ back ∧ ((text chars).take m = text front ∧
      ((text front).length = m ∨ back = []) ∨
    ∃ c later u, back = c :: later ∧ size c = 4 ∧ isHighSurrogate u = true ∧ (text chars).take m = text front ++ [u] ∧
      (text front).length + 1 = m ∧ m < (text chars).length) := by
  induction chars generalizing m with
  | nil => exact ⟨[],[],rfl,.inl ⟨List.take_nil,.inr rfl⟩⟩
  | cons c rest ih =>
    by_cases beyond : (utf16 c).length ≤ m
    · obtain ⟨k,is⟩ := Nat.exists_eq_add_of_le beyond
      obtain ⟨front,back,parts,window⟩ := ih k
      refine ⟨c :: front,back,by rw [parts, List.cons_append],?_⟩
      have cut : (text (c :: rest)).take m = utf16 c ++ (text rest).take k := by
        rw [text_cons, is, List.take_length_add_append]
      rw [cut, text_cons]
      rcases window with ⟨whole,ends⟩ | ⟨d,later,u,next,four,high,half,length⟩
      · refine .inl ⟨by rw [whole],?_⟩
        rw [List.length_append]
        exact ends.imp_left fun same => by omega
      · refine .inr ⟨d,later,u,next,four,high,by rw [half, List.append_assoc],?_⟩
        rw [List.length_append, text_cons c rest, List.length_append]
        omega
    · refine ⟨[],c :: rest,rfl,?_⟩
      cases m with
      | zero => exact .inl ⟨rfl,.inl rfl⟩
      | succ m =>
        have sizes := (units_length c).2
        obtain ⟨high,low,is,isHigh,_⟩ := @utf16_pair c (by omega)
        have one : m = 0 := by omega
        refine .inr ⟨c,rest,high,rfl,by omega,isHigh,?_,by rw [one]; rfl,?_⟩
        · rw [text_cons, is, one]
          rfl
        · rw [text_cons, List.length_append]
          omega

/-- A window from the tail is made of characters, but for half of the first one. -/
theorem drop_text (chars : List Char) (k : Nat) : ∃ front back, chars = front ++ back ∧ ((text chars).drop k = text back ∨
    ∃ earlier c u, front = earlier ++ [c] ∧ size c = 4 ∧ isHighSurrogate u = false ∧ isSurrogate u = true ∧
      (text chars).drop k = u :: text back ∧ 0 < k) := by
  induction chars generalizing k with
  | nil => exact ⟨[],[],rfl,.inl (List.drop_nil)⟩
  | cons c rest ih =>
    by_cases beyond : (utf16 c).length ≤ k
    · obtain ⟨j,is⟩ := Nat.exists_eq_add_of_le beyond
      have sizes := (units_length c).2
      obtain ⟨front,back,parts,window⟩ := ih j
      refine ⟨c :: front,back,by rw [parts, List.cons_append],?_⟩
      have cut : (text (c :: rest)).drop k = (text rest).drop j := by
        rw [text_cons, is, ← List.drop_drop, List.drop_left]
      rw [cut]
      rcases window with whole | ⟨earlier,d,u,last,four,notHigh,alone,half,_⟩
      · exact .inl whole
      · exact .inr ⟨c :: earlier,d,u,by rw [last, List.cons_append],four,notHigh,alone,half,by omega⟩
    · cases k with
      | zero => exact ⟨[],c :: rest,rfl,.inl rfl⟩
      | succ k =>
        have sizes := (units_length c).2
        obtain ⟨high,low,is,_,isLow⟩ := @utf16_pair c (by omega)
        have one : k = 0 := by omega
        refine ⟨[c],rest,rfl,.inr ⟨[],c,low,rfl,by omega,?_,?_,?_,Nat.succ_pos k⟩⟩
        · rw [← Bool.not_eq_true, high_iff]
          rw [low_iff] at isLow
          omega
        · rw [isSurrogate, isLow, Bool.or_true]
        · rw [text_cons, is, one]
          rfl

theorem text_length (chars : List Char) : (text chars).length ≤ (bytes chars).length := by
  induction chars with
  | nil => exact Nat.le_refl 0
  | cons c rest ih =>
    have one := (units_length c).1
    have width : (encodePoint c.toNat).length = size c := rfl
    rw [text_cons, bytes_cons, List.length_append, List.length_append]
    omega

/-- From the head: the characters that fit. -/
theorem truncate_fits (chars : List Char) (maxBytes : Nat) :
    truncateHeadBytes (text chars) maxBytes = ⟨text (fits maxBytes chars),(bytes (fits maxBytes chars)).length⟩ := by
  have whole : ∀ chars : List Char, (bytes chars).length ≤ maxBytes → fits maxBytes chars = chars := by
    intro chars all
    have more := fits_append maxBytes chars []
    rwa [List.append_nil, if_pos all, fits, List.append_nil] at more
  rw [truncateHeadBytes, truncateBytesWindowed]
  split
  · rename_i zero
    cases chars with
    | nil => rfl
    | cons c rest =>
      rw [zero, fits_narrow (size_pos c)]
      rfl
  · rename_i positive
    split
    · rename_i small
      rw [byteLength_text] at small ⊢
      rw [whole chars small.2]
    · rename_i large
      rw [byteLength_text] at large
      dsimp only
      obtain ⟨own,back,parts,window⟩ := take_text chars (min (text chars).length maxBytes)
      have units' := text_length chars
      have own' := text_length own
      -- The characters of the window, with the replacement for half of one.
      have made : ∃ all, encode ((text chars).take (min (text chars).length maxBytes)) = bytes all ∧
          fits maxBytes all = fits maxBytes chars := by
        rcases window with ⟨same,ends⟩ | ⟨c,later,u,next,four,high,half,length,cut⟩
        · refine ⟨own,by rw [same, encode_text],?_⟩
          have tooMuch : back = [] ∨ maxBytes ≤ (bytes own).length := by
            rcases ends with full | none'
            · have total : (text chars).length = (text own).length + (text back).length := by
                rw [parts, text_append, List.length_append]
              by_cases short : (text chars).length ≤ maxBytes
              · cases back with
                | nil => exact .inl rfl
                | cons c later =>
                  have some' := (units_length c).2
                  rw [text_cons, List.length_append] at total
                  omega
              · exact .inr (by omega)
            · exact .inl none'
          rcases tooMuch with none' | full
          · rw [parts, none', List.append_nil]
          · rw [parts, fits_append]
            by_cases all : (bytes own).length ≤ maxBytes
            · have none' : fits (maxBytes - (bytes own).length) back = [] := by
                cases back with
                | nil => rfl
                | cons c later =>
                  have positive' := size_pos c
                  exact fits_narrow (by omega) later
              rw [if_pos all, none', List.append_nil, whole own all]
            · rw [if_neg all]
        · refine ⟨own ++ [replacement],?_,?_⟩
          · rw [half, encode, points_text_append, points, isSurrogate, high, Bool.true_or, if_pos rfl, bytes, List.flatMap_append,
              List.flatMap_append, List.flatMap_map]
            rfl
          · have three : size replacement = 3 := by decide
            rw [parts, next, fits_append, fits_append]
            by_cases all : (bytes own).length ≤ maxBytes
            · rw [if_pos all, if_pos all, fits_narrow (by omega), fits_narrow (by omega)]
            · rw [if_neg all, if_neg all]
      obtain ⟨all,encoded,front⟩ := made
      rw [encoded, backward_fits]
      obtain ⟨rest,is⟩ := fits_begins maxBytes all
      have slice : (bytes all).take (bytes (fits maxBytes all)).length = bytes (fits maxBytes all) := by
        conv_lhs => rw [← is, bytes_append, is, List.take_left]
      rw [slice, decode_bytes, front]
      split
      · rename_i none'
        have empty : fits maxBytes chars = [] := by
          cases first : fits maxBytes chars with
          | nil => rfl
          | cons c more =>
            rw [first, bytes_cons, List.length_append] at none'
            have positive' := size_pos c
            rw [size] at positive'
            omega
        rw [empty]
        rfl
      · rfl

/-- From the head: characters from the front, and all of them when they fit. -/
theorem truncate_head (chars : List Char) (maxBytes : Nat) : ∃ front, front <+: chars ∧ (bytes front).length ≤ maxBytes ∧
    truncateHeadBytes (text chars) maxBytes = ⟨text front,(bytes front).length⟩ :=
  ⟨fits maxBytes chars,fits_begins maxBytes chars,fits_bytes maxBytes chars,truncate_fits chars maxBytes⟩

/-- From the tail: the characters that begin in the last bytes. -/
theorem truncate_behind (chars : List Char) (maxBytes : Nat) :
    truncateTailBytes (text chars) maxBytes =
      ⟨text (behind ((bytes chars).length - maxBytes) chars),(bytes (behind ((bytes chars).length - maxBytes) chars)).length⟩ := by
  rw [truncateTailBytes, truncateBytesWindowed]
  split
  · rename_i zero
    rw [zero, Nat.sub_zero, behind_all]
    rfl
  · rename_i positive
    split
    · rename_i small
      rw [byteLength_text] at small ⊢
      have none' : (bytes chars).length - maxBytes = 0 := by omega
      rw [none', behind]
    · rename_i large
      rw [byteLength_text] at large
      have units' := text_length chars
      dsimp only
      obtain ⟨front,own,parts,window⟩ := drop_text chars ((text chars).length - maxBytes)
      have length : ((text chars).drop ((text chars).length - maxBytes)).length = min (text chars).length maxBytes := by
        rw [List.length_drop]
        omega
      have total : (bytes chars).length = (bytes front).length + (bytes own).length := by
        rw [parts, bytes_append, List.length_append]
      have own' := text_length own
      -- Half a character in front of the window takes three bytes, and the whole one takes four.
      have made : ∃ all, encode ((text chars).drop ((text chars).length - maxBytes)) = bytes all ∧
          behind ((bytes all).length - maxBytes) all = behind ((bytes chars).length - maxBytes) chars := by
        rcases window with whole | ⟨earlier,c,u,last,four,notHigh,alone,half,cut⟩
        · refine ⟨own,by rw [whole, encode_text],?_⟩
          rw [whole] at length
          by_cases full : maxBytes ≤ (bytes own).length
          · have position : (bytes chars).length - maxBytes = (bytes front).length + ((bytes own).length - maxBytes) := by omega
            rw [position, parts, behind_append]
          · have all : (text chars).drop ((text chars).length - maxBytes) = text chars := by
              have none' : (text chars).length - maxBytes = 0 := by omega
              rw [none', List.drop_zero]
            have same : (bytes own).length = (bytes chars).length := by rw [← encode_text, ← encode_text, ← whole, all]
            omega
        · refine ⟨replacement :: own,?_,?_⟩
          · rw [half, encode, points_unit notHigh, alone, if_pos rfl, points_text, List.flatMap_cons, List.flatMap_map]
            rfl
          · have three : (bytes (replacement :: own)).length = 3 + (bytes own).length := by
              rw [bytes_cons, List.length_append]
              rfl
            have front' : (bytes front).length = (bytes earlier).length + 4 := by
              have width : (bytes [c]).length = size c := by rw [bytes_cons, bytes, List.flatMap_nil, List.append_nil, size]
              rw [last, bytes_append, List.length_append, width, four]
            rw [half, List.length_cons] at length
            obtain ⟨k,is⟩ : ∃ k, (bytes (replacement :: own)).length - maxBytes = k + 1 :=
              Nat.exists_eq_succ_of_ne_zero (by omega)
            obtain ⟨j,is'⟩ : ∃ j, (bytes chars).length - maxBytes = (bytes earlier).length + (j + 1) :=
              ⟨(bytes chars).length - maxBytes - (bytes earlier).length - 1,by omega⟩
            have rest : k + 1 - size replacement = j + 1 - size c := by
              have width : size replacement = 3 := by decide
              omega
            rw [is, behind, rest, is', parts, last, List.append_assoc, behind_append, List.singleton_append, behind]
      obtain ⟨all,encoded,back⟩ := made
      have slice : (bytes all).drop (findUtf8BoundaryForward (bytes all) ((bytes all).length - maxBytes)) =
          bytes (behind ((bytes all).length - maxBytes) all) := forward_behind (Nat.sub_le _ _)
      rw [encoded, slice, decode_bytes, back]

/-- From the tail: characters from the back. -/
theorem truncate_tail (chars : List Char) (maxBytes : Nat) : ∃ back, back <:+ chars ∧ (bytes back).length ≤ maxBytes ∧
    ((bytes chars).length ≤ maxBytes → back = chars) ∧
    truncateTailBytes (text chars) maxBytes = ⟨text back,(bytes back).length⟩ := by
  have bound := behind_bytes ((bytes chars).length - maxBytes) chars
  refine ⟨behind ((bytes chars).length - maxBytes) chars,behind_suffix _ chars,by omega,?_,truncate_behind chars maxBytes⟩
  intro all
  rw [Nat.sub_eq_zero_of_le all, behind]

end ByteWindows
