import OpenAgents.Hashline.Tokenizer
import OpenAgents.Lib.Runs
import OpenAgents.Lib.TextLines

/- Feeding a patch to the tokenizer in pieces gives the tokens of the whole patch. Between
   two calls the tokenizer holds the last, unfinished line, carriage return included. -/
namespace TokenChunks
open JsText Hashline ChunkedRuns TextLines

/- What a streaming caller does: one `feed` a chunk, then `end()`. -/
def feedChunks (t : Tokenizer) : List JsString → Except JsString (List Token × Tokenizer)
  | [] => .ok ([], t)
  | chunk :: rest => do
      let (tokens, next) ← t.feed chunk
      let (later, last) ← feedChunks next rest
      .ok (tokens ++ later, last)

def tokenizeChunks (chunks : List JsString) : Except JsString (List Token) := do
  let (tokens, t) ← feedChunks Tokenizer.new chunks
  .ok (tokens ++ t.finish.1)

/- An open tokenizer taking in more text. -/
def absorb (t : Tokenizer) (chunk : JsString) : List Token × Tokenizer :=
  { t with buffer := t.buffer ++ chunk }.drainCompleteLines

def Unfinished (t : Tokenizer) : Prop := t.closed = false ∧ lineFeed ∉ t.buffer

theorem absorb_empty {t : Tokenizer} (unfinished : Unfinished t) : absorb t [] = ([], t) := by
  have one : splitLines t.buffer = [t.buffer] := List.splitOn_eq_singleton unfinished.2
  simp [absorb, Tokenizer.drainCompleteLines, one, classifyFrom]

theorem absorb_unfinished {t : Tokenizer} (chunk : JsString) (unfinished : Unfinished t) : Unfinished (absorb t chunk).2 :=
  ⟨unfinished.1,lastLine_clean (t.buffer ++ chunk)⟩

theorem absorb_append (t : Tokenizer) (first second : JsString) :
    absorb t (first ++ second) =
      ((absorb t first).1 ++ (absorb (absorb t first).2 second).1, (absorb (absorb t first).2 second).2) := by
  have some' := splitLines_ne_nil (lastLine (t.buffer ++ first) ++ second)
  have whole : (splitLines (t.buffer ++ (first ++ second))).dropLast =
      (splitLines (t.buffer ++ first)).dropLast ++ (splitLines (lastLine (t.buffer ++ first) ++ second)).dropLast := by
    rw [← List.append_assoc, splitLines_append, List.dropLast_append_of_ne_nil some']
  have last : lastLine (t.buffer ++ (first ++ second)) = lastLine (lastLine (t.buffer ++ first) ++ second) := by
    rw [← List.append_assoc, lastLine_append]
  unfold absorb Tokenizer.drainCompleteLines
  simp only [← lastLine.eq_def, whole, last, classifyFrom_append, List.length_append, Nat.add_assoc]

theorem seamless : Seamless absorb Unfinished where
  empty := fun _ unfinished => absorb_empty unfinished
  keeps := fun _ chunk unfinished => absorb_unfinished chunk unfinished
  append := fun t first second _ => absorb_append t first second

/-- An open tokenizer never refuses a chunk. -/
theorem feed_absorbs {t : Tokenizer} (unfinished : Unfinished t) (chunk : JsString) : t.feed chunk = .ok (absorb t chunk) := by
  cases chunk with
  | nil => simp [Tokenizer.feed, unfinished.1, absorb_empty unfinished]
  | cons c rest => simp [Tokenizer.feed, unfinished.1, absorb]

theorem feedChunks_absorb {t : Tokenizer} (unfinished : Unfinished t) (chunks : List JsString) :
    feedChunks t chunks = .ok (feedAll absorb t chunks) := by
  induction chunks generalizing t with
  | nil => rfl
  | cons chunk rest ih =>
    have later := ih (absorb_unfinished chunk unfinished)
    unfold feedChunks
    rw [feed_absorbs unfinished]
    show (do let (tokens, last) ← feedChunks (absorb t chunk).2 rest
             Except.ok ((absorb t chunk).1 ++ tokens, last)) = Except.ok (feedAll absorb t (chunk :: rest))
    rw [later]
    rfl

/-- However the text is cut, the tokens and their line numbers are those of `tokenizeAll`. -/
theorem chunk_invariant (chunks : List JsString) : tokenizeChunks chunks = .ok (tokenizeAll chunks.flatten) := by
  have fresh : Unfinished Tokenizer.new := ⟨rfl,List.not_mem_nil⟩
  have whole : feedChunks Tokenizer.new chunks = .ok (absorb Tokenizer.new chunks.flatten) := by
    rw [feedChunks_absorb fresh, feedAll_flatten seamless chunks fresh]
  unfold tokenizeChunks tokenizeAll
  rw [whole, feed_absorbs fresh]
  rfl

/- A carriage return that ends one chunk still belongs to the line feed that opens the next. -/
example : tokenizeChunks [js "+a\r", js "\n+b"] = .ok [⟨1,.payloadLiteral (js "a")⟩, ⟨2,.payloadLiteral (js "b")⟩] := by decide

end TokenChunks
