import OpenAgents.Lib.JsText
import Mathlib.Data.List.Basic

/- UTF-8 of JavaScript strings. A surrogate without its partner is written as the replacement
   character; a string without such surrogates is a sequence of characters and is read back. -/
namespace Utf8
open JsText

def replacementCharacter : Nat := 0xFFFD

def isSurrogate (c : CodeUnit) : Bool := isHighSurrogate c || isLowSurrogate c

/- The code points of a string. -/
def points : JsString → List Nat
  | [] => []
  | [c] => [if isSurrogate c then replacementCharacter else c.toNat]
  | c :: d :: rest =>
      if isHighSurrogate c && isLowSurrogate d then
        (0x10000 + (c.toNat - 0xD800) * 0x400 + (d.toNat - 0xDC00)) :: points rest
      else (if isSurrogate c then replacementCharacter else c.toNat) :: points (d :: rest)

def encodePoint (v : Nat) : List Nat :=
  if v < 0x80 then [v]
  else if v < 0x800 then [0xC0 + v / 0x40, 0x80 + v % 0x40]
  else if v < 0x10000 then [0xE0 + v / 0x1000, 0x80 + v / 0x40 % 0x40, 0x80 + v % 0x40]
  else [0xF0 + v / 0x40000, 0x80 + v / 0x1000 % 0x40, 0x80 + v / 0x40 % 0x40, 0x80 + v % 0x40]

def encode (text : JsString) : List Nat := (points text).flatMap encodePoint

def byteLength (text : JsString) : Nat := (encode text).length

def isContinuation (byte : Nat) : Bool := 0x80 ≤ byte && byte < 0xC0

def units (v : Nat) : JsString :=
  if v < 0x10000 then [UInt16.ofNat v]
  else [UInt16.ofNat (0xD800 + (v - 0x10000) / 0x400), UInt16.ofNat (0xDC00 + (v - 0x10000) % 0x400)]

/-- A character of which some bytes have been read: how many are needed, its bits so far, and the
    range of the next byte. -/
structure Partial where
  needed : Nat
  value : Nat
  lower : Nat
  upper : Nat

def firstByte (byte : Nat) : JsString × Option Partial :=
  if byte < 0x80 then ([UInt16.ofNat byte], none)
  else if 0xC2 ≤ byte ∧ byte ≤ 0xDF then ([], some ⟨1,byte - 0xC0,0x80,0xBF⟩)
  else if 0xE0 ≤ byte ∧ byte ≤ 0xEF then
    ([], some ⟨2,byte - 0xE0,if byte = 0xE0 then 0xA0 else 0x80,if byte = 0xED then 0x9F else 0xBF⟩)
  else if 0xF0 ≤ byte ∧ byte ≤ 0xF4 then
    ([], some ⟨3,byte - 0xF0,if byte = 0xF0 then 0x90 else 0x80,if byte = 0xF4 then 0x8F else 0xBF⟩)
  else ([UInt16.ofNat replacementCharacter], none)

/- A byte that does not continue the character starts anew, behind a replacement character. -/
def nextByte (open' : Partial) (byte : Nat) : JsString × Option Partial :=
  if open'.lower ≤ byte ∧ byte ≤ open'.upper then
    let value := open'.value * 0x40 + (byte - 0x80)
    if open'.needed ≤ 1 then (units value, none) else ([], some ⟨open'.needed - 1,value,0x80,0xBF⟩)
  else (UInt16.ofNat replacementCharacter :: (firstByte byte).1, (firstByte byte).2)

def decodeFrom : Option Partial → List Nat → JsString
  | none, [] => []
  | some _, [] => [UInt16.ofNat replacementCharacter]
  | none, byte :: rest => (firstByte byte).1 ++ decodeFrom (firstByte byte).2 rest
  | some open', byte :: rest => (nextByte open' byte).1 ++ decodeFrom (nextByte open' byte).2 rest

def decode (bytes : List Nat) : JsString := decodeFrom none bytes

/- Characters as they stand in a string and in UTF-8. -/
def text (chars : List Char) : JsString := chars.flatMap utf16

def bytes (chars : List Char) : List Nat := chars.flatMap fun c => encodePoint c.toNat

def size (c : Char) : Nat := (encodePoint c.toNat).length

def WellFormed (s : JsString) : Prop := ∃ chars, s = text chars

@[simp] theorem text_append (front back : List Char) : text (front ++ back) = text front ++ text back := List.flatMap_append

@[simp] theorem bytes_append (front back : List Char) : bytes (front ++ back) = bytes front ++ bytes back := List.flatMap_append

@[simp] theorem text_nil : text [] = [] := rfl

theorem text_cons (c : Char) (rest : List Char) : text (c :: rest) = utf16 c ++ text rest := List.flatMap_cons

theorem bytes_cons (c : Char) (rest : List Char) : bytes (c :: rest) = encodePoint c.toNat ++ bytes rest := List.flatMap_cons

/-- A character is below the surrogates, between them and the end of the plane, or above the plane. -/
theorem char_cases (c : Char) : c.toNat < 0xD800 ∨ (0xE000 ≤ c.toNat ∧ c.toNat < 0x10000) ∨
    (0x10000 ≤ c.toNat ∧ c.toNat < 0x110000) := by
  have valid : c.toNat < 0xD800 ∨ (0xDFFF < c.toNat ∧ c.toNat < 0x110000) := c.valid
  omega

theorem unit_low {v : Nat} (small : v < 0x10000) : (UInt16.ofNat v).toNat = v := by
  rw [UInt16.toNat_ofNat']
  exact Nat.mod_eq_of_lt small

theorem high_iff (c : CodeUnit) : isHighSurrogate c = true ↔ 0xD800 ≤ c.toNat ∧ c.toNat ≤ 0xDBFF := by
  simp [isHighSurrogate, UInt16.le_iff_toNat_le]

theorem low_iff (c : CodeUnit) : isLowSurrogate c = true ↔ 0xDC00 ≤ c.toNat ∧ c.toNat ≤ 0xDFFF := by
  simp [isLowSurrogate, UInt16.le_iff_toNat_le]

theorem utf16_eq (c : Char) : utf16 c = units c.toNat := by
  rw [utf16, units]

theorem points_unit {c : CodeUnit} (other : isHighSurrogate c = false) (rest : JsString) :
    points (c :: rest) = (if isSurrogate c then replacementCharacter else c.toNat) :: points rest := by
  cases rest with
  | nil => rfl
  | cons d rest => rw [points, other, Bool.false_and, if_neg Bool.false_ne_true]

theorem points_char (c : Char) (rest : JsString) : points (utf16 c ++ rest) = c.toNat :: points rest := by
  rw [utf16_eq, units]
  split
  · rename_i small
    have exact' := unit_low small
    have notHigh : isHighSurrogate (UInt16.ofNat c.toNat) = false := by
      rw [← Bool.not_eq_true, high_iff, exact']
      have cases' := char_cases c
      omega
    have notLow : isLowSurrogate (UInt16.ofNat c.toNat) = false := by
      rw [← Bool.not_eq_true, low_iff, exact']
      have cases' := char_cases c
      omega
    rw [List.singleton_append, points_unit notHigh, isSurrogate, notHigh, notLow, exact']
    rfl
  · rename_i large
    have cases' := char_cases c
    have high : (UInt16.ofNat (0xD800 + (c.toNat - 0x10000) / 0x400)).toNat = 0xD800 + (c.toNat - 0x10000) / 0x400 :=
      unit_low (by omega)
    have low : (UInt16.ofNat (0xDC00 + (c.toNat - 0x10000) % 0x400)).toNat = 0xDC00 + (c.toNat - 0x10000) % 0x400 :=
      unit_low (by omega)
    have pair : isHighSurrogate (UInt16.ofNat (0xD800 + (c.toNat - 0x10000) / 0x400)) = true ∧
        isLowSurrogate (UInt16.ofNat (0xDC00 + (c.toNat - 0x10000) % 0x400)) = true := by
      rw [high_iff, low_iff, high, low]
      omega
    have value : 0x10000 + (0xD800 + (c.toNat - 0x10000) / 0x400 - 0xD800) * 0x400 + (0xDC00 + (c.toNat - 0x10000) % 0x400 - 0xDC00) =
        c.toNat := by
      omega
    rw [List.cons_append, List.cons_append, List.nil_append, points, pair.1, pair.2, high, low, Bool.and_self, if_pos rfl, value]

theorem points_text_append (chars : List Char) (rest : JsString) : points (text chars ++ rest) = chars.map Char.toNat ++ points rest := by
  induction chars with
  | nil => rfl
  | cons c chars ih => rw [text_cons, List.append_assoc, points_char, ih, List.map_cons, List.cons_append]

theorem points_text (chars : List Char) : points (text chars) = chars.map Char.toNat := by
  have all := points_text_append chars []
  rw [List.append_nil] at all
  rw [all]
  exact List.append_nil _

theorem encode_text (chars : List Char) : encode (text chars) = bytes chars := by
  rw [encode, points_text, bytes, List.flatMap_map]

theorem byteLength_text (chars : List Char) : byteLength (text chars) = (bytes chars).length := by
  rw [byteLength, encode_text]

theorem WellFormed.append {front back : JsString} (wellFormed : WellFormed front) (wellFormed' : WellFormed back) :
    WellFormed (front ++ back) := by
  obtain ⟨first,is⟩ := wellFormed
  obtain ⟨second,is'⟩ := wellFormed'
  exact ⟨first ++ second,by rw [is, is', text_append]⟩

theorem size_cases (c : Char) : (c.toNat < 0x80 ∧ size c = 1) ∨ (0x80 ≤ c.toNat ∧ c.toNat < 0x800 ∧ size c = 2) ∨
    (0x800 ≤ c.toNat ∧ c.toNat < 0x10000 ∧ size c = 3) ∨ (0x10000 ≤ c.toNat ∧ size c = 4) := by
  rw [size, encodePoint]
  split
  · exact .inl ⟨by assumption,rfl⟩
  · split
    · exact .inr (.inl ⟨by omega,by assumption,rfl⟩)
    · split
      · exact .inr (.inr (.inl ⟨by omega,by assumption,rfl⟩))
      · exact .inr (.inr (.inr ⟨by omega,rfl⟩))

theorem size_pos (c : Char) : 0 < size c := by
  have cases' := size_cases c
  omega

/-- A character takes no more units than bytes, and two units only with four bytes. -/
theorem units_length (c : Char) : (utf16 c).length ≤ size c ∧ ((utf16 c).length = 1 ∨ ((utf16 c).length = 2 ∧ size c = 4)) := by
  have cases' := size_cases c
  rw [utf16_eq, units]
  split
  · rw [List.length_singleton]
    exact ⟨size_pos c,.inl rfl⟩
  · have four : size c = 4 := by omega
    rw [four]
    exact ⟨show 2 ≤ 4 by decide,.inr ⟨rfl,rfl⟩⟩

/-- The first byte of a character begins it and the others continue it. -/
theorem encodePoint_bytes (c : Char) : ∃ first rest, encodePoint c.toNat = first :: rest ∧ isContinuation first = false ∧
    ∀ byte ∈ rest, isContinuation byte = true := by
  have cases' := char_cases c
  rw [encodePoint]
  split
  · refine ⟨_,[],rfl,?_,by simp⟩
    simp [isContinuation]
    omega
  · split
    · refine ⟨_,_,rfl,?_,?_⟩
      · simp [isContinuation]
      · simp [isContinuation]
        omega
    · split
      · refine ⟨_,_,rfl,?_,?_⟩
        · simp [isContinuation]
          omega
        · simp [isContinuation]
          omega
      · refine ⟨_,_,rfl,?_,?_⟩
        · simp [isContinuation]
          omega
        · simp [isContinuation]
          omega

theorem decode_more {open' : Partial} {byte : Nat} (range : open'.lower ≤ byte ∧ byte ≤ open'.upper) (more : 1 < open'.needed)
    (rest : List Nat) : decodeFrom (some open') (byte :: rest) =
      decodeFrom (some ⟨open'.needed - 1,open'.value * 0x40 + (byte - 0x80),0x80,0xBF⟩) rest := by
  rw [decodeFrom, nextByte, if_pos range]
  dsimp only
  rw [if_neg (Nat.not_le_of_lt more)]
  exact List.nil_append _

theorem decode_last {open' : Partial} {byte : Nat} (range : open'.lower ≤ byte ∧ byte ≤ open'.upper) (last : open'.needed ≤ 1)
    (rest : List Nat) : decodeFrom (some open') (byte :: rest) =
      units (open'.value * 0x40 + (byte - 0x80)) ++ decodeFrom none rest := by
  rw [decodeFrom, nextByte, if_pos range]
  dsimp only
  rw [if_pos last]

theorem decode_char (c : Char) (rest : List Nat) : decodeFrom none (encodePoint c.toNat ++ rest) = utf16 c ++ decodeFrom none rest := by
  have cases' := char_cases c
  rw [utf16_eq]
  generalize c.toNat = v at cases'
  rw [encodePoint]
  split
  · rename_i one
    have small : v < 0x10000 := by omega
    simp [decodeFrom, firstByte, one, units, small]
  · split
    · rename_i notOne two
      have range : 0xC2 ≤ 0xC0 + v / 0x40 ∧ 0xC0 + v / 0x40 ≤ 0xDF := by omega
      have high : ¬ 0xC0 + v / 0x40 < 0x80 := by omega
      have tail : 0x80 ≤ 0x80 + v % 0x40 ∧ 0x80 + v % 0x40 ≤ 0xBF := by omega
      have value : (0xC0 + v / 0x40 - 0xC0) * 0x40 + (0x80 + v % 0x40 - 0x80) = v := by omega
      rw [List.cons_append, List.singleton_append, decodeFrom, firstByte, if_neg high, if_pos range]
      dsimp only
      rw [List.nil_append, decode_last tail (Nat.le_refl 1), value]
    · split
      · rename_i notOne notTwo three
        have range : 0xE0 ≤ 0xE0 + v / 0x1000 ∧ 0xE0 + v / 0x1000 ≤ 0xEF := by omega
        have high : ¬ 0xE0 + v / 0x1000 < 0x80 := by omega
        have notTwo' : ¬ (0xC2 ≤ 0xE0 + v / 0x1000 ∧ 0xE0 + v / 0x1000 ≤ 0xDF) := by omega
        have second : (if 0xE0 + v / 0x1000 = 0xE0 then 0xA0 else 0x80) ≤ 0x80 + v / 0x40 % 0x40 ∧
            0x80 + v / 0x40 % 0x40 ≤ (if 0xE0 + v / 0x1000 = 0xED then 0x9F else 0xBF) := by
          constructor
          · split <;> omega
          · split <;> omega
        have tail : 0x80 ≤ 0x80 + v % 0x40 ∧ 0x80 + v % 0x40 ≤ 0xBF := by omega
        have value : ((0xE0 + v / 0x1000 - 0xE0) * 0x40 + (0x80 + v / 0x40 % 0x40 - 0x80)) * 0x40 + (0x80 + v % 0x40 - 0x80) = v := by
          omega
        rw [List.cons_append, List.cons_append, List.singleton_append, decodeFrom, firstByte, if_neg high, if_neg notTwo', if_pos range]
        dsimp only
        rw [List.nil_append, decode_more second (show 1 < 2 by decide), decode_last tail (Nat.le_refl 1), value]
      · rename_i notOne notTwo notThree
        have range : 0xF0 ≤ 0xF0 + v / 0x40000 ∧ 0xF0 + v / 0x40000 ≤ 0xF4 := by omega
        have high : ¬ 0xF0 + v / 0x40000 < 0x80 := by omega
        have notTwo' : ¬ (0xC2 ≤ 0xF0 + v / 0x40000 ∧ 0xF0 + v / 0x40000 ≤ 0xDF) := by omega
        have notThree' : ¬ (0xE0 ≤ 0xF0 + v / 0x40000 ∧ 0xF0 + v / 0x40000 ≤ 0xEF) := by omega
        have second : (if 0xF0 + v / 0x40000 = 0xF0 then 0x90 else 0x80) ≤ 0x80 + v / 0x1000 % 0x40 ∧
            0x80 + v / 0x1000 % 0x40 ≤ (if 0xF0 + v / 0x40000 = 0xF4 then 0x8F else 0xBF) := by
          constructor
          · split <;> omega
          · split <;> omega
        have third : 0x80 ≤ 0x80 + v / 0x40 % 0x40 ∧ 0x80 + v / 0x40 % 0x40 ≤ 0xBF := by omega
        have tail : 0x80 ≤ 0x80 + v % 0x40 ∧ 0x80 + v % 0x40 ≤ 0xBF := by omega
        have value : (((0xF0 + v / 0x40000 - 0xF0) * 0x40 + (0x80 + v / 0x1000 % 0x40 - 0x80)) * 0x40 +
            (0x80 + v / 0x40 % 0x40 - 0x80)) * 0x40 + (0x80 + v % 0x40 - 0x80) = v := by
          omega
        rw [List.cons_append, List.cons_append, List.cons_append, List.singleton_append, decodeFrom, firstByte, if_neg high,
          if_neg notTwo', if_neg notThree', if_pos range]
        dsimp only
        rw [List.nil_append, decode_more second (show 1 < 3 by decide), decode_more third (show 1 < 2 by decide), decode_last tail (Nat.le_refl 1), value]

theorem decode_bytes (chars : List Char) : decode (bytes chars) = text chars := by
  induction chars with
  | nil => rfl
  | cons c chars ih =>
    rw [decode] at ih
    rw [decode, bytes_cons, decode_char, ih, text_cons]

/- Decoding what has come so far: the text, and the character that is still open. -/
def decodeRun : Option Partial → List Nat → JsString × Option Partial
  | open', [] => ([], open')
  | none, byte :: rest =>
      ((firstByte byte).1 ++ (decodeRun (firstByte byte).2 rest).1, (decodeRun (firstByte byte).2 rest).2)
  | some open', byte :: rest =>
      ((nextByte open' byte).1 ++ (decodeRun (nextByte open' byte).2 rest).1, (decodeRun (nextByte open' byte).2 rest).2)

def decodeFlush : Option Partial → JsString
  | none => []
  | some _ => [UInt16.ofNat replacementCharacter]

theorem decodeFrom_run (bytes : List Nat) (open' : Option Partial) :
    decodeFrom open' bytes = (decodeRun open' bytes).1 ++ decodeFlush (decodeRun open' bytes).2 := by
  induction bytes generalizing open' with
  | nil => cases open' <;> rfl
  | cons byte rest ih =>
    cases open' with
    | none => rw [decodeFrom, decodeRun, ih, List.append_assoc]
    | some started => rw [decodeFrom, decodeRun, ih, List.append_assoc]

theorem decodeRun_append (front back : List Nat) (open' : Option Partial) :
    decodeRun open' (front ++ back) = ((decodeRun open' front).1 ++ (decodeRun (decodeRun open' front).2 back).1,
      (decodeRun (decodeRun open' front).2 back).2) := by
  induction front generalizing open' with
  | nil => simp [decodeRun]
  | cons byte front ih =>
    cases open' with
    | none => simp only [List.cons_append, decodeRun, ih, List.append_assoc]
    | some started => simp only [List.cons_append, decodeRun, ih, List.append_assoc]

/-- A unit that ends no pair starts a new code point. -/
theorem points_append {c : CodeUnit} (other : isLowSurrogate c = false) (front back : JsString) :
    points (front ++ c :: back) = points front ++ points (c :: back) := by
  induction front using points.induct with
  | case1 => rfl
  | case2 d => simp [points, other]
  | case3 d e rest paired ih => simp only [List.cons_append, points, paired, if_true, ih]
  | case4 d e rest unpaired ih =>
    simp only [List.cons_append] at ih
    simp only [List.cons_append, points, if_neg unpaired, ih]

theorem byteLength_lineFeed (front back : JsString) :
    byteLength (front ++ lineFeed :: back) = byteLength front + 1 + byteLength back := by
  have feed : points (lineFeed :: back) = 10 :: points back := points_unit (by decide) back
  have one : (encodePoint 10).length = 1 := by decide
  rw [byteLength, encode, points_append (by decide), feed, List.flatMap_append, List.length_append, List.flatMap_cons,
    List.length_append, one, Nat.add_assoc]
  rfl

end Utf8
