import OpenAgents.Lib.Runs
import OpenAgents.Session.ByteWindows

/- The last bytes of a stream of strings. What is held is cut only when it is read, or when it has
   grown to twice the budget. -/
namespace OutputSink
open JsText Utf8 ByteWindows AnsweredRuns

def MAX_PENDING : Nat := 10

structure TailBuffer where
  maxBytes : Nat
  pending : List JsString
  pos : Nat

namespace TailBuffer

def new (maxBytes : Nat) : TailBuffer := ⟨maxBytes,[],0⟩

def compact (buffer : TailBuffer) : TailBuffer := { buffer with pending := [buffer.pending.flatten] }

def flush (buffer : TailBuffer) : JsString × TailBuffer :=
  match buffer.pending with
  | [] => ([], buffer)
  | [held] => (held, buffer)
  | _ => (buffer.pending.flatten, buffer.compact)

def trimTo (buffer : TailBuffer) (max : Nat) : TailBuffer :=
  if max = 0 then { buffer with pending := [], pos := 0 }
  else if buffer.pos ≤ max then buffer
  else
    let (joined, buffer) := buffer.flush
    let kept := truncateTailBytes joined max
    { buffer with pending := [kept.text], pos := kept.bytes }

def append (buffer : TailBuffer) (text : JsString) : TailBuffer :=
  if text.isEmpty then buffer
  else
    let max := buffer.maxBytes
    if max = 0 then { buffer with pending := [], pos := 0 }
    else
      let n := byteLength text
      if max ≤ n then
        let kept := truncateTailBytes text max
        { buffer with pending := [kept.text], pos := kept.bytes }
      else
        let pending := buffer.pending ++ [text]
        let pushed := { buffer with pending := pending, pos := buffer.pos + n }
        let added := if MAX_PENDING < pending.length then pushed.compact else pushed
        if max * 2 < added.pos then added.trimTo max else added

def text (buffer : TailBuffer) : JsString × TailBuffer := (buffer.trimTo buffer.maxBytes).flush

def bytes (buffer : TailBuffer) : Nat × TailBuffer :=
  let buffer := buffer.trimTo buffer.maxBytes
  (buffer.pos, buffer)

/-- What is asked of the buffer. A string that comes has no half of a surrogate pair. -/
inductive Call where
  | append (text : { text : JsString // WellFormed text })
  | text
  | bytes

inductive Answer where
  | done
  | text (text : JsString)
  | bytes (bytes : Nat)
  deriving DecidableEq, Repr

def answer (buffer : TailBuffer) : Call → Answer × TailBuffer
  | .append text => (.done, buffer.append text.val)
  | .text =>
      let (text, buffer) := buffer.text
      (.text text, buffer)
  | .bytes =>
      let (bytes, buffer) := buffer.bytes
      (.bytes bytes, buffer)

/- The whole stream, cut only for the answer. -/
def wholeAnswer (maxBytes : Nat) (whole : JsString) : Call → Answer × JsString
  | .append text => (.done, whole ++ text.val)
  | .text => (.text (truncateTailBytes whole maxBytes).text, whole)
  | .bytes => (.bytes (byteLength (truncateTailBytes whole maxBytes).text), whole)

/-- What is held is the stream from some cut on, and the last cut that counts is not before it. -/
structure Holds (maxBytes : Nat) (buffer : TailBuffer) (whole : List Char) (cut : Nat) : Prop where
  budget : buffer.maxBytes = maxBytes
  early : cut ≤ (Utf8.bytes whole).length - maxBytes
  held : buffer.pending.flatten = Utf8.text (behind cut whole)
  count : buffer.pos = (Utf8.bytes (behind cut whole)).length

section holding
variable {maxBytes : Nat} {buffer : TailBuffer} {whole : List Char} {cut : Nat}

theorem flush_held (buffer : TailBuffer) : buffer.flush.1 = buffer.pending.flatten ∧
    buffer.flush.2.pending.flatten = buffer.pending.flatten ∧ buffer.flush.2.pos = buffer.pos ∧
    buffer.flush.2.maxBytes = buffer.maxBytes := by
  rw [flush]
  split
  · rename_i none'
    rw [none']
    exact ⟨rfl,rfl,rfl,rfl⟩
  · rename_i held one
    rw [one]
    exact ⟨(List.append_nil held).symm,rfl,rfl,rfl⟩
  · exact ⟨rfl,List.append_nil _,rfl,rfl⟩

theorem flush_holds (holds : Holds maxBytes buffer whole cut) :
    buffer.flush.1 = Utf8.text (behind cut whole) ∧ Holds maxBytes buffer.flush.2 whole cut := by
  obtain ⟨shown,held,pos,budget⟩ := flush_held buffer
  exact ⟨shown.trans holds.held,budget.trans holds.budget,holds.early,held.trans holds.held,pos.trans holds.count⟩

/-- Trimmed, the buffer holds the last bytes of the stream. -/
theorem trim_holds (holds : Holds maxBytes buffer whole cut) :
    Holds maxBytes (buffer.trimTo maxBytes) whole ((Utf8.bytes whole).length - maxBytes) := by
  have shorter := behind_bytes cut whole
  have again := behind_behind holds.early whole
  rw [trimTo]
  split
  · rename_i zero
    refine ⟨holds.budget,Nat.le_refl _,?_,?_⟩
    · rw [zero, Nat.sub_zero, behind_all]
      rfl
    · rw [zero, Nat.sub_zero, behind_all]
      rfl
  · split
    · rename_i room
      rw [holds.count] at room
      have none' : (Utf8.bytes whole).length - maxBytes - ((Utf8.bytes whole).length - (Utf8.bytes (behind cut whole)).length) = 0 := by
        omega
      rw [none', behind] at again
      exact ⟨holds.budget,Nat.le_refl _,again ▸ holds.held,again ▸ holds.count⟩
    · rename_i tooMuch
      rw [holds.count] at tooMuch
      obtain ⟨joined,_,_,budget⟩ := flush_held buffer
      have kept := truncate_behind (behind cut whole) maxBytes
      have same : (Utf8.bytes (behind cut whole)).length - maxBytes =
          (Utf8.bytes whole).length - maxBytes - ((Utf8.bytes whole).length - (Utf8.bytes (behind cut whole)).length) := by omega
      rw [same, again] at kept
      dsimp only
      rw [joined, holds.held, kept]
      exact ⟨budget.trans holds.budget,Nat.le_refl _,List.append_nil _,rfl⟩

/-- An appended text, and perhaps a later cut. -/
theorem append_holds (holds : Holds maxBytes buffer whole cut) (chars : List Char) :
    ∃ cut', Holds maxBytes (buffer.append (Utf8.text chars)) (whole ++ chars) cut' := by
  obtain rfl := holds.budget
  have total : (Utf8.bytes (whole ++ chars)).length = (Utf8.bytes whole).length + (Utf8.bytes chars).length := by
    rw [bytes_append, List.length_append]
  have early := holds.early
  have more := @behind_more whole cut (by omega) chars
  rw [append]
  split
  · rename_i nothing
    have none' : chars = [] := by
      cases chars with
      | nil => rfl
      | cons c rest =>
        have some' := (units_length c).2
        rw [List.isEmpty_iff, text_cons, List.append_eq_nil_iff] at nothing
        rw [nothing.1, List.length_nil] at some'
        omega
    rw [none', List.append_nil]
    exact ⟨cut,holds⟩
  · dsimp only
    split
    · rename_i zero
      refine ⟨(Utf8.bytes (whole ++ chars)).length,rfl,by omega,?_,?_⟩
      · rw [behind_all]
        rfl
      · rw [behind_all]
        rfl
    · rename_i positive
      rw [byteLength_text]
      split
      · rename_i dominates
        have position : (Utf8.bytes (whole ++ chars)).length - buffer.maxBytes =
            (Utf8.bytes whole).length + ((Utf8.bytes chars).length - buffer.maxBytes) := by omega
        have behind' := behind_append whole chars ((Utf8.bytes chars).length - buffer.maxBytes)
        rw [truncate_behind]
        refine ⟨(Utf8.bytes (whole ++ chars)).length - buffer.maxBytes,rfl,Nat.le_refl _,?_,?_⟩
        · rw [position, behind']
          exact List.append_nil _
        · rw [position, behind']
      · have pushed : ∀ pending, pending.flatten = buffer.pending.flatten ++ Utf8.text chars →
            Holds buffer.maxBytes { buffer with pending := pending, pos := buffer.pos + (Utf8.bytes chars).length } (whole ++ chars) cut := by
          intro pending all
          refine ⟨rfl,by omega,?_,?_⟩
          · rw [more, text_append, ← holds.held]
            exact all
          · rw [more, bytes_append, List.length_append, ← holds.count]
        have added : Holds buffer.maxBytes (if MAX_PENDING < (buffer.pending ++ [Utf8.text chars]).length then
              compact { buffer with pending := buffer.pending ++ [Utf8.text chars], pos := buffer.pos + (Utf8.bytes chars).length }
            else { buffer with pending := buffer.pending ++ [Utf8.text chars], pos := buffer.pos + (Utf8.bytes chars).length })
            (whole ++ chars) cut := by
          split
          · exact pushed _ (by simp)
          · exact pushed _ (by simp)
        generalize (if MAX_PENDING < (buffer.pending ++ [Utf8.text chars]).length then
              compact { buffer with pending := buffer.pending ++ [Utf8.text chars], pos := buffer.pos + (Utf8.bytes chars).length }
            else { buffer with pending := buffer.pending ++ [Utf8.text chars], pos := buffer.pos + (Utf8.bytes chars).length }) =
              next at added ⊢
        split
        · exact ⟨_,trim_holds added⟩
        · exact ⟨cut,added⟩

/-- Where the stream has come to; the buffer holds it from some cut on. -/
def Follows (maxBytes : Nat) (buffer : TailBuffer) (whole : JsString) : Prop :=
  ∃ chars cut, whole = Utf8.text chars ∧ Holds maxBytes buffer chars cut

theorem answers_alike (maxBytes : Nat) : Simulates (Follows maxBytes) answer (wholeAnswer maxBytes) := by
  intro buffer whole call follows
  obtain ⟨chars,cut,is,holds⟩ := follows
  obtain rfl := holds.budget
  have trimmed := trim_holds holds
  have kept := truncate_behind chars buffer.maxBytes
  cases call with
  | append text =>
    obtain ⟨more,is'⟩ := text.property
    obtain ⟨cut',holds'⟩ := append_holds holds more
    rw [← is'] at holds'
    exact ⟨rfl,chars ++ more,cut',by rw [text_append, ← is, ← is']; rfl,holds'⟩
  | text =>
    obtain ⟨shown,after⟩ := flush_holds trimmed
    refine ⟨?_,chars,_,is,after⟩
    rw [answer, wholeAnswer, is, kept]
    exact congrArg Answer.text shown
  | bytes =>
    refine ⟨?_,chars,_,is,trimmed⟩
    rw [answer, wholeAnswer, is, kept, byteLength_text]
    exact congrArg Answer.bytes trimmed.count

end holding

/-- Asked in whatever order, the buffer answers as if the whole stream had been kept. -/
theorem tail_of_whole (maxBytes : Nat) (calls : List Call) :
    (run answer (new maxBytes) calls).1 = (run (wholeAnswer maxBytes) [] calls).1 := by
  have start : Follows maxBytes (new maxBytes) [] := ⟨[],0,rfl,rfl,Nat.zero_le _,rfl,rfl⟩
  exact (run_simulates (answers_alike maxBytes) start calls).1

end TailBuffer

end OutputSink
