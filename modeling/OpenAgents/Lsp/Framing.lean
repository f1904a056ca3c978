import OpenAgents.Lib.Json
import OpenAgents.Lib.TextReplace
import OpenAgents.Lib.Utf8

/- Messages in a byte stream, each behind a header that gives its length. -/
namespace LspFraming
open JsText JsJson TextReplace Utf8

/- `\r\n\r\n` -/
def separator : List Nat := [13, 10, 13, 10]

def findHeaderEnd (buffer : List Nat) : Option Nat := firstAt separator buffer

def lower (c : CodeUnit) : CodeUnit := if 65 ≤ c && c ≤ 90 then c + 32 else c

def digitsValue (digits : JsString) : Nat := digits.foldl (fun n c => n * 10 + (c.toNat - 48)) 0

/- The first match of `Content-Length: (\d+)`, whatever the case of its letters. -/
def contentLength? : JsString → Option Nat
  | [] => none
  | c :: rest =>
      let digits := ((c :: rest).drop 16).takeWhile isDigit
      if ((c :: rest).take 16).map lower == js "content-length: " && !digits.isEmpty then some (digitsValue digits)
      else contentLength? rest

inductive Parsed where
  | incomplete
  | malformed
  | message (message : Json) (remaining : List Nat)

/- The first message of the buffer. `parse` is `JSON.parse` of the decoded bytes. -/
def parseMessage (parse : List Nat → Option Json) (buffer : List Nat) : Parsed :=
  match findHeaderEnd buffer with
  | none => .incomplete
  | some headerEnd =>
      match contentLength? (decode (buffer.take headerEnd)) with
      | none => .incomplete
      | some contentLength =>
          let messageStart := headerEnd + 4
          let messageEnd := messageStart + contentLength
          if buffer.length < messageEnd then .incomplete
          else
            match parse ((buffer.drop messageStart).take contentLength) with
            | none => .malformed
            | some message => .message message (buffer.drop messageEnd)

structure Frame where
  header : List Nat
  body : List Nat

def Frame.bytes (frame : Frame) : List Nat := frame.header ++ separator ++ frame.body

/-- The header ends where it seems to end and gives the length of the body. -/
structure WellFramed (parse : List Nat → Option Json) (frame : Frame) (message : Json) : Prop where
  ends : findHeaderEnd (frame.header ++ separator) = some frame.header.length
  length : contentLength? (decode frame.header) = some frame.body.length
  body : parse frame.body = some message

theorem header_end {parse : List Nat → Option Json} {frame : Frame} {message : Json} (framed : WellFramed parse frame message)
    (more : List Nat) : findHeaderEnd (frame.bytes ++ more) = some frame.header.length := by
  obtain ⟨_,_,least⟩ := firstAt_some framed.ends
  have parts : frame.bytes ++ more = frame.header ++ separator ++ (frame.body ++ more) := List.append_assoc _ _ _
  rw [parts]
  apply firstAt_unique
  · rw [List.append_assoc, List.drop_left]
    exact List.prefix_append _ _
  · intro j less begins
    apply least j less
    rw [List.drop_append_of_le_length (by rw [List.length_append]; omega)] at begins
    refine List.prefix_of_prefix_length_le begins (List.prefix_append _ _) ?_
    rw [List.length_drop, List.length_append]
    omega

/-- A complete frame is read, and what follows it remains. -/
theorem parse_frame {parse : List Nat → Option Json} {frame : Frame} {message : Json} (framed : WellFramed parse frame message)
    (more : List Nat) : parseMessage parse (frame.bytes ++ more) = .message message more := by
  have size : separator.length = 4 := rfl
  have header : (frame.bytes ++ more).take frame.header.length = frame.header := by
    rw [Frame.bytes, List.append_assoc, List.append_assoc, List.take_left]
  have rest : (frame.bytes ++ more).drop (frame.header.length + 4) = frame.body ++ more := by
    rw [Frame.bytes, List.append_assoc, ← List.drop_drop, List.append_assoc, List.drop_left, ← size, List.drop_left]
  rw [parseMessage, header_end framed more]
  dsimp only
  rw [header, framed.length]
  dsimp only
  rw [if_neg, rest, List.take_left, framed.body]
  · dsimp only
    rw [← List.drop_drop, rest, List.drop_left]
  · rw [List.length_append, Frame.bytes, List.length_append, List.length_append]
    omega

/-- Of an incomplete frame nothing is read. -/
theorem parse_partial {parse : List Nat → Option Json} {frame : Frame} {message : Json} (framed : WellFramed parse frame message)
    {buffer rest : List Nat} (split : buffer ++ rest = frame.bytes) (some' : rest ≠ []) : parseMessage parse buffer = .incomplete := by
  have size : separator.length = 4 := rfl
  have positive := List.length_pos_iff.mpr some'
  have total := congrArg List.length split
  rw [List.length_append, Frame.bytes, List.length_append, List.length_append] at total
  rw [parseMessage]
  cases found : findHeaderEnd buffer with
  | none => rfl
  | some i =>
    obtain ⟨begins,room,_⟩ := firstAt_some found
    have whole := header_end framed []
    rw [List.append_nil] at whole
    obtain ⟨_,_,least⟩ := firstAt_some whole
    have inside : buffer.drop i ++ rest = frame.bytes.drop i := by
      rw [← split, List.drop_append_of_le_length (by omega)]
    have late : frame.header.length ≤ i := by
      by_contra early
      apply least i (by omega)
      rw [← inside]
      exact begins.trans (List.prefix_append _ _)
    have here : i = frame.header.length := by
      by_contra other
      have there : separator <+: buffer.drop frame.header.length := by
        have full := (firstAt_some whole).1
        rw [← split, List.drop_append_of_le_length (by omega)] at full
        refine List.prefix_of_prefix_length_le full (List.prefix_append _ _) ?_
        rw [List.length_drop]
        omega
      have first : ∀ j < frame.header.length, ¬ separator <+: buffer.drop j := by
        intro j less early
        apply least j less
        rw [← split, List.drop_append_of_le_length (by omega)]
        exact early.trans (List.prefix_append _ _)
      have same := firstAt_unique there first
      rw [findHeaderEnd, same] at found
      exact other (Option.some.inj found).symm
    have header : buffer.take i = frame.header := by
      have front : frame.bytes.take i = frame.header := by
        rw [here, Frame.bytes, List.append_assoc, List.take_left]
      rw [← front, ← split, List.take_append_of_le_length (by omega)]
    dsimp only
    rw [header, framed.length]
    dsimp only
    rw [if_pos (by omega)]

end LspFraming
