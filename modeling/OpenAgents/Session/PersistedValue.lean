import OpenAgents.Lib.Json
import OpenAgents.Lib.Utf8
import Mathlib.Data.List.Infix

/- What of an entry is written to the session file: long strings are cut, images go to the blob store,
   and transient properties are dropped. The asynchronous traversal maps over the children, the
   synchronous one loops over them with what it has so far; their outcomes are the same. -/
namespace PersistedValue
open JsText JsJson

def maxPersistChars : Nat := 500000
def truncationNotice : JsString := js "\n\n[Session persistence truncated large content]"
def blobExternalizeThreshold : Nat := 1024
def textContentKey : JsString := js "content"
def blobPrefix : JsString := js "blob:sha256:"

/-- The store names a blob by the digest of its bytes; the decoding of base64 is the runtime's. -/
structure BlobStore where
  digest : List Nat → JsString
  fromBase64 : JsString → List Nat

/-- A result. `same` is the input value itself, everything else is new. -/
inductive Persisted where
  | same (value : Json)
  | text (value : JsString)
  | count (value : Nat)
  | arr (items : List Persisted)
  | obj (fields : List (JsString × Persisted))

/-- A result and the blobs that are put on the way, in the order in which this is begun. -/
structure Outcome where
  result : Persisted
  puts : List (List Nat)

/- The `!==` of a result and the value it comes from. -/
def differs (value : Json) : Persisted → Bool
  | .same _ => false
  | .text text => value ≠ .str text
  | .count _ | .arr _ | .obj _ => true

def asString : Persisted → Option JsString
  | .same (.str text) => some text
  | .text text => some text
  | _ => none

def isNumber : Persisted → Bool
  | .same (.num _) => true
  | .count _ => true
  | _ => false

def truncateString (value : JsString) (maxLength : Nat) : JsString :=
  if value.length ≤ maxLength then value
  else
    let truncated := value.take maxLength
    if truncated.getLast?.any isHighSurrogate then truncated.dropLast else truncated

def isBlobRef (data : JsString) : Bool := startsWith data blobPrefix

def includes (text token : JsString) : Bool := decide (token <:+: text)

def isImageDataUrl (data : JsString) : Bool := startsWith data (js "data:image/") && includes data (js ";base64,")

/- The data of an image block. -/
def imageBlockData (value : Json) : Option JsString :=
  match value.field? (js "type"), value.field? (js "data") with
  | some (.str kind), some (.str data) => if kind = js "image" then some data else none
  | _, _ => none

/- `{ ...item, data }` -/
def withData (item : Json) (data : JsString) : Persisted :=
  match item with
  | .obj fields => .obj (fields.map fun field => (field.1, if field.1 = js "data" then .text data else .same field.2))
  | _ => .same item

section Store
variable (store : BlobStore)

def put (data : List Nat) : JsString × List (List Nat) := (blobPrefix ++ store.digest data, [data])
def putSync (data : List Nat) : JsString × List (List Nat) := (blobPrefix ++ store.digest data, [data])

def externalizeImageDataUrl (dataUrl : JsString) : JsString × List (List Nat) :=
  if isBlobRef dataUrl then (dataUrl, []) else put store (Utf8.encode dataUrl)

def externalizeImageDataUrlSync (dataUrl : JsString) : JsString × List (List Nat) :=
  if isBlobRef dataUrl then (dataUrl, []) else putSync store (Utf8.encode dataUrl)

def externalizeImageData (base64Data : JsString) : JsString × List (List Nat) :=
  if isBlobRef base64Data then (base64Data, []) else put store (store.fromBase64 base64Data)

def externalizeImageDataSync (base64Data : JsString) : JsString × List (List Nat) :=
  if isBlobRef base64Data then (base64Data, []) else putSync store (store.fromBase64 base64Data)

/- The asynchronous traversal -/

/-- What one item or field gives: it is dropped or has a new value, and the callback may set `changed`. -/
structure ItemRun where
  result : Persisted
  changed : Bool
  puts : List (List Nat)

structure FieldRun where
  entries : List (JsString × Persisted)
  changed : Bool
  puts : List (List Nat)

def stringOutcome (key : Option JsString) (text : JsString) : Outcome :=
  if key = some (js "image_url") ∧ isImageDataUrl text then
    let ref := externalizeImageDataUrl store text
    ⟨.text ref.1,ref.2⟩
  else if maxPersistChars < text.length then
    if key = some (js "thinkingSignature") ∨ key = some (js "thoughtSignature") ∨ key = some (js "textSignature") then
      ⟨.text [],[]⟩
    else
      let limit := maxPersistChars - truncationNotice.length
      ⟨.text (truncateString text limit ++ truncationNotice),[]⟩
  else ⟨.same (.str text),[]⟩

def updateLineCount (entries : List (JsString × Persisted)) : List (JsString × Persisted) :=
  let contentEntry := entries.find? fun entry => entry.1 = js "content"
  let lineCountEntry := entries.find? fun entry => entry.1 = js "lineCount"
  match contentEntry.bind fun entry => asString entry.2, lineCountEntry with
  | some content, some lineCount =>
      if isNumber lineCount.2 then
        entries.map fun entry => if entry.1 = js "lineCount" then (entry.1, .count (splitLines content).length) else entry
      else entries
  | _, _ => entries

mutual

def truncateForPersistence (key : Option JsString) : Json → Outcome
  | .null => ⟨.same .null,[]⟩
  | .bool value => ⟨.same (.bool value),[]⟩
  | .num value => ⟨.same (.num value),[]⟩
  | .str text => stringOutcome store key text
  | .arr items =>
      let runs := itemRuns key items
      ⟨if runs.any ItemRun.changed then .arr (runs.map ItemRun.result) else .same (.arr items),runs.flatMap ItemRun.puts⟩
  | .obj fields =>
      let runs := fieldRuns fields
      ⟨if runs.any FieldRun.changed then .obj (updateLineCount (runs.flatMap FieldRun.entries)) else .same (.obj fields),
        runs.flatMap FieldRun.puts⟩

def itemRuns (key : Option JsString) : List Json → List ItemRun
  | [] => []
  | item :: rest =>
      let outcome := truncateForPersistence key item
      let plain : ItemRun := ⟨outcome.result,differs item outcome.result,outcome.puts⟩
      (match if key = some textContentKey then imageBlockData item else none with
        | some data =>
            if isBlobRef data = false ∧ blobExternalizeThreshold ≤ data.length then
              let blobRef := externalizeImageData store data
              ⟨withData item blobRef.1,true,blobRef.2⟩
            else plain
        | none => plain) :: itemRuns key rest

def fieldRuns : List (JsString × Json) → List FieldRun
  | [] => []
  | (childKey, value) :: rest =>
      let outcome := truncateForPersistence (some childKey) value
      (if childKey = js "partialJson" ∨ childKey = js "jsonlEvents" then ⟨[],true,[]⟩
        else ⟨[(childKey, outcome.result)],differs value outcome.result,outcome.puts⟩) :: fieldRuns rest

end

/- The synchronous traversal -/

structure ItemLoop where
  changed : Bool
  result : List Persisted
  puts : List (List Nat)

structure FieldLoop where
  changed : Bool
  entries : List (JsString × Persisted)
  puts : List (List Nat)

def stringOutcomeSync (key : Option JsString) (text : JsString) : Outcome :=
  if key = some (js "image_url") ∧ isImageDataUrl text then
    let ref := externalizeImageDataUrlSync store text
    ⟨.text ref.1,ref.2⟩
  else if maxPersistChars < text.length then
    if key = some (js "thinkingSignature") ∨ key = some (js "thoughtSignature") ∨ key = some (js "textSignature") then
      ⟨.text [],[]⟩
    else
      let limit := maxPersistChars - truncationNotice.length
      ⟨.text (truncateString text limit ++ truncationNotice),[]⟩
  else ⟨.same (.str text),[]⟩

def updateLineCountSync (entries : List (JsString × Persisted)) : List (JsString × Persisted) :=
  let contentEntry := entries.find? fun entry => entry.1 = js "content"
  let lineCountEntry := entries.find? fun entry => entry.1 = js "lineCount"
  match contentEntry.bind fun entry => asString entry.2, lineCountEntry with
  | some content, some lineCount =>
      if isNumber lineCount.2 then
        entries.map fun entry => if entry.1 = js "lineCount" then (entry.1, .count (splitLines content).length) else entry
      else entries
  | _, _ => entries

mutual

def truncateForPersistenceSync (key : Option JsString) : Json → Outcome
  | .null => ⟨.same .null,[]⟩
  | .bool value => ⟨.same (.bool value),[]⟩
  | .num value => ⟨.same (.num value),[]⟩
  | .str text => stringOutcomeSync store key text
  | .arr items =>
      let loop := itemLoop key items ⟨false,[],[]⟩
      ⟨if loop.changed then .arr loop.result else .same (.arr items),loop.puts⟩
  | .obj fields =>
      let loop := fieldLoop fields ⟨false,[],[]⟩
      ⟨if loop.changed then .obj (updateLineCountSync loop.entries) else .same (.obj fields),loop.puts⟩

def itemLoop (key : Option JsString) : List Json → ItemLoop → ItemLoop
  | [], loop => loop
  | item :: rest, loop =>
      let outcome := truncateForPersistenceSync key item
      let plain : ItemLoop :=
        ⟨loop.changed || differs item outcome.result,loop.result ++ [outcome.result],loop.puts ++ outcome.puts⟩
      itemLoop key rest
        (match if key = some textContentKey then imageBlockData item else none with
        | some data =>
            if isBlobRef data = false ∧ blobExternalizeThreshold ≤ data.length then
              let blobRef := externalizeImageDataSync store data
              ⟨true,loop.result ++ [withData item blobRef.1],loop.puts ++ blobRef.2⟩
            else plain
        | none => plain)

def fieldLoop : List (JsString × Json) → FieldLoop → FieldLoop
  | [], loop => loop
  | (childKey, value) :: rest, loop =>
      let outcome := truncateForPersistenceSync (some childKey) value
      fieldLoop rest
        (if childKey = js "partialJson" ∨ childKey = js "jsonlEvents" then ⟨true,loop.entries,loop.puts⟩
        else
          ⟨loop.changed || differs value outcome.result,loop.entries ++ [(childKey, outcome.result)],
            loop.puts ++ outcome.puts⟩)

end

/- A loop that has run over some items, whose outcomes are known. -/
def ItemLoop.extend (loop : ItemLoop) (runs : List ItemRun) : ItemLoop :=
  ⟨loop.changed || runs.any ItemRun.changed,loop.result ++ runs.map ItemRun.result,loop.puts ++ runs.flatMap ItemRun.puts⟩

def FieldLoop.extend (loop : FieldLoop) (runs : List FieldRun) : FieldLoop :=
  ⟨loop.changed || runs.any FieldRun.changed,loop.entries ++ runs.flatMap FieldRun.entries,
    loop.puts ++ runs.flatMap FieldRun.puts⟩

theorem extend_item (loop : ItemLoop) (run : ItemRun) (runs : List ItemRun) :
    loop.extend (run :: runs) =
      (ItemLoop.mk (loop.changed || run.changed) (loop.result ++ [run.result]) (loop.puts ++ run.puts)).extend runs := by
  simp [ItemLoop.extend, Bool.or_assoc]

theorem extend_field (loop : FieldLoop) (run : FieldRun) (runs : List FieldRun) :
    loop.extend (run :: runs) =
      (FieldLoop.mk (loop.changed || run.changed) (loop.entries ++ run.entries) (loop.puts ++ run.puts)).extend runs := by
  simp [FieldLoop.extend, Bool.or_assoc]

theorem stringOutcome_sync (key : Option JsString) (text : JsString) :
    stringOutcomeSync store key text = stringOutcome store key text := rfl

/- By the structure of the value: over a list, the loop has gathered what the mapped callbacks give. -/
mutual

theorem value_sync (key : Option JsString) (value : Json) :
    truncateForPersistenceSync store key value = truncateForPersistence store key value := by
  cases value with
  | null => rw [truncateForPersistenceSync, truncateForPersistence]
  | bool value => rw [truncateForPersistenceSync, truncateForPersistence]
  | num value => rw [truncateForPersistenceSync, truncateForPersistence]
  | str text => rw [truncateForPersistenceSync, truncateForPersistence, stringOutcome_sync]
  | arr items =>
    rw [truncateForPersistenceSync, truncateForPersistence, items_sync key items ⟨false,[],[]⟩]
    simp [ItemLoop.extend]
  | obj fields =>
    rw [truncateForPersistenceSync, truncateForPersistence, fields_sync fields ⟨false,[],[]⟩]
    simp [FieldLoop.extend, updateLineCountSync, updateLineCount]

theorem items_sync (key : Option JsString) (items : List Json) (loop : ItemLoop) :
    itemLoop store key items loop = loop.extend (itemRuns store key items) := by
  cases items with
  | nil => simp [itemLoop, itemRuns, ItemLoop.extend]
  | cons item rest =>
    rw [itemLoop, itemRuns, extend_item, value_sync key item, items_sync key rest]
    congr 1
    cases if key = some textContentKey then imageBlockData item else none with
    | none => rfl
    | some data =>
      by_cases large : isBlobRef data = false ∧ blobExternalizeThreshold ≤ data.length
      · simp only [if_pos large, Bool.or_true]
        rfl
      · simp only [if_neg large]

theorem fields_sync (fields : List (JsString × Json)) (loop : FieldLoop) :
    fieldLoop store fields loop = loop.extend (fieldRuns store fields) := by
  cases fields with
  | nil => simp [fieldLoop, fieldRuns, FieldLoop.extend]
  | cons field rest =>
    obtain ⟨childKey,value⟩ := field
    rw [fieldLoop, fieldRuns, extend_field, value_sync (some childKey) value, fields_sync rest]
    congr 1
    by_cases transient : childKey = js "partialJson" ∨ childKey = js "jsonlEvents"
    · simp [if_pos transient]
    · simp only [if_neg transient]

end

/- What a result keeps as it is, is the value itself. -/
def SharesOnly (value : Json) : Persisted → Prop
  | .same kept => kept = value
  | _ => True

theorem shares_input (key : Option JsString) (value : Json) :
    SharesOnly value (truncateForPersistence store key value).result := by
  cases value with
  | null =>
    rw [truncateForPersistence]
    rfl
  | bool value =>
    rw [truncateForPersistence]
    rfl
  | num value =>
    rw [truncateForPersistence]
    rfl
  | str text =>
    rw [truncateForPersistence, stringOutcome]
    split
    · trivial
    · split
      · split <;> trivial
      · rfl
  | arr items =>
    rw [truncateForPersistence]
    simp only
    split
    · trivial
    · rfl
  | obj fields =>
    rw [truncateForPersistence]
    simp only
    split
    · trivial
    · rfl

/-- For every value, key and store, both traversals have the same outcome: the same new values in the same places,
    the same input values kept as they are, and the same blobs put, in the same order. -/
theorem traversals_agree (key : Option JsString) (value : Json) :
    truncateForPersistenceSync store key value = truncateForPersistence store key value ∧
      SharesOnly value (truncateForPersistence store key value).result :=
  ⟨value_sync store key value,shares_input store key value⟩

/- A dropped property makes the object new; its other values stay what they are. -/
example : (truncateForPersistence store none
    (.obj [(js "role", .str (js "user")), (js "partialJson", .str (js "x"))])).result =
      .obj [(js "role", .same (.str (js "user")))] := rfl

end Store

end PersistedValue
