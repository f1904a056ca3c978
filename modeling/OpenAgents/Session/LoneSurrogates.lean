import OpenAgents.Lib.LastIndex
import OpenAgents.Session.OutputSink

/- A string with halves of surrogate pairs in it is cut as the well-formed string with U+FFFD for
   each of them. -/
namespace OutputSink
open JsText Utf8 ByteWindows LongestPart

theorem bytes_characters (s : JsString) : encode s = bytes (characters s) := by
  rw [encode, ← characters_points, List.flatMap_map, bytes]

theorem encode_wellFormed (s : JsString) : encode (toWellFormed s) = encode s := by
  rw [text_characters, encode_text, bytes_characters]

theorem byteLength_wellFormed (s : JsString) : byteLength (toWellFormed s) = byteLength s := by
  rw [byteLength, encode_wellFormed]
  rfl

/- The code points of a string, first to last: a pair, or one unit. -/
section unitwise
variable {c d : CodeUnit} {rest : JsString}

theorem pair_point (paired : (isHighSurrogate c && isLowSurrogate d) = true) :
    ∃ v, 0x10000 ≤ v ∧ points (c :: d :: rest) = v :: points rest ∧ units v = [c, d] := by
  have range := Bool.and_eq_true _ _ ▸ paired
  rw [high_iff, low_iff] at range
  refine ⟨_,?_,by rw [points, if_pos paired],?_⟩
  · omega
  · have high : 0xD800 + (0x10000 + (c.toNat - 0xD800) * 0x400 + (d.toNat - 0xDC00) - 0x10000) / 0x400 = c.toNat := by omega
    have low : 0xDC00 + (0x10000 + (c.toNat - 0xD800) * 0x400 + (d.toNat - 0xDC00) - 0x10000) % 0x400 = d.toNat := by omega
    rw [units, if_neg (by omega), high, low, UInt16.ofNat_toNat, UInt16.ofNat_toNat]

theorem unit_point (c : CodeUnit) : ∃ v, v < 0x10000 ∧ (if isSurrogate c then replacementCharacter else c.toNat) = v ∧
    ((isSurrogate c = true ∧ v = 0xFFFD) ∨ (isSurrogate c = false ∧ units v = [c])) := by
  cases lone : isSurrogate c with
  | true => exact ⟨replacementCharacter,by decide,rfl,.inl ⟨rfl,rfl⟩⟩
  | false =>
    have small := c.toNat_lt
    refine ⟨c.toNat,by omega,rfl,.inr ⟨rfl,?_⟩⟩
    rw [units, if_pos (by omega), UInt16.ofNat_toNat]

end unitwise

theorem wellFormed_length (s : JsString) : (toWellFormed s).length = s.length := by
  rw [toWellFormed]
  induction s using points.induct with
  | case1 => rfl
  | case2 c =>
    obtain ⟨v,small,is,_⟩ := unit_point c
    rw [points, is, List.flatMap_singleton, units, if_pos small]
    rfl
  | case3 c d rest paired ih =>
    obtain ⟨v,_,is,same⟩ := @pair_point c d rest paired
    rw [is, List.flatMap_cons, List.length_append, ih, same, List.length_cons, List.length_cons]
    exact Nat.add_comm _ _
  | case4 c d rest unpaired ih =>
    obtain ⟨v,small,is,_⟩ := unit_point c
    rw [points, if_neg unpaired, is, List.flatMap_cons, List.length_append, ih, units, if_pos small, List.length_cons]
    exact Nat.add_comm _ _

/-- Cut inside, both are encoded alike. -/
theorem drop_encoded (s : JsString) (k : Nat) : encode ((toWellFormed s).drop k) = encode (s.drop k) := by
  cases k with
  | zero => exact encode_wellFormed s
  | succ k =>
    induction s using points.induct generalizing k with
    | case1 => rfl
    | case2 c =>
      have one := wellFormed_length [c]
      rw [List.drop_of_length_le (by rw [one, List.length_singleton]; omega), List.drop_of_length_le (by rw [List.length_singleton]; omega)]
    | case3 c d rest paired ih =>
      obtain ⟨v,_,is,same⟩ := @pair_point c d rest paired
      have front : toWellFormed (c :: d :: rest) = c :: d :: toWellFormed rest := by
        rw [toWellFormed, is, List.flatMap_cons, same]
        rfl
      have notHigh : isHighSurrogate d = false := by
        rw [Bool.and_eq_true, high_iff, low_iff] at paired
        rw [← Bool.not_eq_true, high_iff]
        omega
      rw [front, List.drop_succ_cons, List.drop_succ_cons]
      rcases k with _ | _ | k
      · rw [List.drop_zero, List.drop_zero, encode, encode, points_unit notHigh, points_unit notHigh, List.flatMap_cons, List.flatMap_cons]
        exact congrArg _ (encode_wellFormed rest)
      · exact encode_wellFormed rest
      · exact ih k
    | case4 c d rest unpaired ih =>
      obtain ⟨v,small,is,_⟩ := unit_point c
      have front : toWellFormed (c :: d :: rest) = UInt16.ofNat v :: toWellFormed (d :: rest) := by
        rw [toWellFormed, points, if_neg unpaired, is, List.flatMap_cons, units, if_pos small]
        rfl
      rw [front, List.drop_succ_cons, List.drop_succ_cons]
      cases k with
      | zero => exact encode_wellFormed (d :: rest)
      | succ k => exact ih k

theorem encodePoint_length (v : Nat) : 1 ≤ (encodePoint v).length ∧ (0x10000 ≤ v → (encodePoint v).length = 4) := by
  rw [encodePoint]
  split
  · exact ⟨Nat.le_refl 1,by omega⟩
  · split
    · exact ⟨Nat.le_add_left 1 _,by omega⟩
    · split
      · exact ⟨Nat.le_add_left 1 _,by omega⟩
      · exact ⟨Nat.le_add_left 1 _,fun _ => rfl⟩

/-- A string of as many bytes as units has no surrogates. -/
theorem wellFormed_narrow (s : JsString) : s.length ≤ byteLength s ∧ (byteLength s ≤ s.length → toWellFormed s = s) := by
  have lone : (encodePoint 0xFFFD).length = 3 := by decide
  rw [byteLength, encode, toWellFormed]
  induction s using points.induct with
  | case1 => exact ⟨Nat.le_refl 0,fun _ => rfl⟩
  | case2 c =>
    obtain ⟨v,_,is,either⟩ := unit_point c
    have one := (encodePoint_length v).1
    rw [points, is, List.flatMap_singleton, List.flatMap_singleton, List.length_singleton]
    refine ⟨one,fun narrow => ?_⟩
    rcases either with ⟨_,replaced⟩ | ⟨_,same⟩
    · rw [replaced, lone] at narrow
      omega
    · exact same
  | case3 c d rest paired ih =>
    obtain ⟨v,large,is,same⟩ := @pair_point c d rest paired
    have four := (encodePoint_length v).2 large
    rw [is, List.flatMap_cons, List.flatMap_cons, List.length_append, four, List.length_cons, List.length_cons]
    exact ⟨by omega,fun narrow => by omega⟩
  | case4 c d rest unpaired ih =>
    obtain ⟨v,_,is,either⟩ := unit_point c
    have one := (encodePoint_length v).1
    rw [points, if_neg unpaired, is, List.flatMap_cons, List.flatMap_cons, List.length_append, List.length_cons]
    refine ⟨by omega,fun narrow => ?_⟩
    rcases either with ⟨_,replaced⟩ | ⟨_,same⟩
    · rw [replaced, lone] at narrow
      omega
    · rw [same, ih.2 (by omega)]
      rfl

/-- A string that does not fit is cut as the well-formed one. -/
theorem truncate_wellFormed {s : JsString} {maxBytes : Nat} (large : maxBytes < byteLength s) :
    truncateTailBytes s maxBytes = truncateTailBytes (toWellFormed s) maxBytes := by
  have large' : ¬ (s.length ≤ maxBytes ∧ byteLength s ≤ maxBytes) := by omega
  rw [truncateTailBytes, truncateTailBytes, truncateBytesWindowed, truncateBytesWindowed, wellFormed_length, byteLength_wellFormed,
    if_neg large', if_neg large']
  dsimp only
  rw [drop_encoded]

/-- Cutting the last units of a string is cutting the string. -/
theorem truncate_window {s : JsString} {maxBytes : Nat} (large : maxBytes < s.length) :
    truncateTailBytes (s.drop (s.length - maxBytes)) maxBytes = truncateTailBytes s maxBytes := by
  have count : (s.drop (s.length - maxBytes)).length = maxBytes := by
    rw [List.length_drop]
    omega
  have wide := (wellFormed_narrow s).1
  rw [truncateTailBytes, truncateTailBytes, truncateBytesWindowed, truncateBytesWindowed]
  by_cases zero : maxBytes = 0
  · rw [if_pos zero, if_pos zero]
  · rw [if_neg zero, if_neg zero, count, if_neg (by omega : ¬ (s.length ≤ maxBytes ∧ byteLength s ≤ maxBytes))]
    generalize s.drop (s.length - maxBytes) = window at count ⊢
    by_cases small : byteLength window ≤ maxBytes
    · -- The whole window is encoded and read back.
      have same := (wellFormed_narrow window).2 (by omega)
      have encoded := bytes_characters window
      have none' : (bytes (characters window)).length - maxBytes = 0 := by
        rw [← encoded]
        exact Nat.sub_eq_zero_of_le small
      have slice := @forward_behind (characters window) 0 (Nat.zero_le _)
      dsimp only
      rw [if_pos ⟨Nat.le_refl _,small⟩, encoded, none', slice, behind, decode_bytes, ← text_characters, same, ← encoded]
      rfl
    · rw [if_neg (fun both => small both.2)]
      dsimp only
      rw [Nat.sub_self, List.drop_zero]

/-- Of characters cut from the tail as many are kept as fit. -/
theorem behind_longest (chars : List Char) (maxBytes : Nat) :
    LongestSuffix (fun kept => (bytes kept).length ≤ maxBytes) chars (behind ((bytes chars).length - maxBytes) chars) := by
  have bound := behind_bytes ((bytes chars).length - maxBytes) chars
  refine ⟨behind_suffix _ chars,by omega,?_⟩
  intro other part small
  obtain ⟨front,is⟩ := part
  have total : (bytes chars).length = (bytes front).length + (bytes other).length := by rw [← is, bytes_append, List.length_append]
  have more := @behind_more front ((bytes chars).length - maxBytes) (by omega) other
  rw [is] at more
  rw [more]
  exact List.suffix_append _ other

end OutputSink
