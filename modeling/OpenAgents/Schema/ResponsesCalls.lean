import OpenAgents.Schema.ResponsesReady

/- That a sanitized schema accepts every value the original one does. A union accepts more than
   `oneOf`, so this needs that no `oneOf` stands where accepting more means rejecting more: under an
   odd number of `not`s, or where both count, in `if` and beside `maxContains`. -/
namespace JsonSchema
open JsText JsJson JsObject

def validatedMapKeys : List JsString := [js "properties", js "patternProperties", js "dependentSchemas"]

def validatedValueKeys : List JsString :=
  [js "items", js "propertyNames", js "then", js "else", js "additionalProperties"]

def hasBranches (schema : Fields) : Bool := hasField schema (js "then") || hasField schema (js "else")

def hasReference (schema : Fields) : Bool :=
  match getField schema (js "$ref") with
  | some (.str _) => true
  | _ => false

mutual

/-- At `true` no position of the schema that counts the other way holds a `oneOf`; at `false` no
    position that counts this way. There is no reference. -/
def polarityOk (positive : Bool) : Json → Bool
  | .obj fields =>
      !hasReference fields && (positive || (arrayOf? fields (js "oneOf")).isNone) &&
        polarityFields positive (hasBranches fields) (numberOf? fields (js "maxContains")).isSome fields
  | _ => true

def polarityFields (positive branches limited : Bool) : Fields → Bool
  | [] => true
  | (key, child) :: rest =>
      (if key = js "not" then polarityOk (!positive) child
        else if key = js "if" then !branches || (polarityOk true child && polarityOk false child)
        else if key = js "contains" then polarityOk positive child && (!limited || polarityOk (!positive) child)
        else if validatedValueKeys.contains key then polarityOk positive child
        else match child with
          | .obj fields => !validatedMapKeys.contains key || polarityMap positive fields
          | .arr items => !schemaArrayKeys.contains key || polarityArray positive items
          | _ => true) && polarityFields positive branches limited rest

def polarityArray (positive : Bool) : List Json → Bool
  | [] => true
  | item :: rest => polarityOk positive item && polarityArray positive rest

def polarityMap (positive : Bool) : Fields → Bool
  | [] => true
  | (_, child) :: rest => polarityOk positive child && polarityMap positive rest

end

section polarity
variable {positive branches limited : Bool}

theorem polarity_items {items : List Json} (ok : polarityArray positive items = true) :
    ∀ item ∈ items, polarityOk positive item = true := by
  induction items with
  | nil => simp
  | cons first rest ih =>
    rw [polarityArray, Bool.and_eq_true] at ok
    intro item mem
    rcases List.mem_cons.mp mem with rfl | later
    · exact ok.1
    · exact ih ok.2 item later

theorem polarity_map {fields : Fields} (ok : polarityMap positive fields = true) :
    ∀ field ∈ fields, polarityOk positive field.2 = true := by
  induction fields with
  | nil => simp
  | cons first rest ih =>
    rw [polarityMap, Bool.and_eq_true] at ok
    intro field mem
    rcases List.mem_cons.mp mem with rfl | later
    · exact ok.1
    · exact ih ok.2 field later

/- The condition on one field. -/
def polarityField (positive branches limited : Bool) (key : JsString) (child : Json) : Bool :=
  if key = js "not" then polarityOk (!positive) child
  else if key = js "if" then !branches || (polarityOk true child && polarityOk false child)
  else if key = js "contains" then polarityOk positive child && (!limited || polarityOk (!positive) child)
  else if validatedValueKeys.contains key then polarityOk positive child
  else match child with
    | .obj fields => !validatedMapKeys.contains key || polarityMap positive fields
    | .arr items => !schemaArrayKeys.contains key || polarityArray positive items
    | _ => true

theorem polarityFields_cons (field : JsString × Json) (rest : Fields) :
    polarityFields positive branches limited (field :: rest) =
      (polarityField positive branches limited field.1 field.2 && polarityFields positive branches limited rest) := by
  obtain ⟨key,child⟩ := field
  cases child <;> simp only [polarityFields, polarityField]

variable {child : Json}

theorem polarity_field {fields : Fields} (ok : polarityFields positive branches limited fields = true) {key : JsString}
    (found : getField fields key = some child) : polarityField positive branches limited key child = true := by
  have mem := mem_of_get found
  clear found
  induction fields with
  | nil => contradiction
  | cons field rest ih =>
    rw [polarityFields_cons, Bool.and_eq_true] at ok
    rcases List.mem_cons.mp mem with rfl | later
    · exact ok.1
    · exact ih ok.2 later

variable {fields : Fields} (ok : polarityFields positive branches limited fields = true)
include ok

theorem polarity_value {key : JsString} (isValue : validatedValueKeys.contains key = true)
    (found : getField fields key = some child) : polarityOk positive child = true := by
  have apart : ∀ key ∈ validatedValueKeys, key ≠ js "not" ∧ key ≠ js "if" ∧ key ≠ js "contains" := by decide
  obtain ⟨one,two,three⟩ := apart key (List.contains_iff_mem.mp isValue)
  have here := polarity_field ok found
  unfold polarityField at here
  rw [if_neg one, if_neg two, if_neg three, if_pos isValue] at here
  exact here

theorem polarity_not (found : getField fields (js "not") = some child) :
    polarityOk (!positive) child = true := polarity_field ok found

theorem polarity_if (found : getField fields (js "if") = some child) (more : branches = true) :
    polarityOk true child = true ∧ polarityOk false child = true := by
  have here := polarity_field ok found
  unfold polarityField at here
  rw [if_neg (by decide), if_pos rfl, more, Bool.not_true, Bool.false_or, Bool.and_eq_true] at here
  exact here

theorem polarity_contains (found : getField fields (js "contains") = some child) :
    polarityOk positive child = true ∧ (limited = true → polarityOk (!positive) child = true) := by
  have here := polarity_field ok found
  unfold polarityField at here
  rw [if_neg (by decide), if_neg (by decide), if_pos rfl, Bool.and_eq_true] at here
  refine ⟨here.1,?_⟩
  intro bounded
  simpa [bounded] using here.2

theorem polarity_objectOf {key : JsString} (isMap : validatedMapKeys.contains key = true) :
    ∀ field ∈ objectOf fields key, polarityOk positive field.2 = true := by
  have apart : ∀ key ∈ validatedMapKeys,
      key ≠ js "not" ∧ key ≠ js "if" ∧ key ≠ js "contains" ∧ validatedValueKeys.contains key = false := by decide
  obtain ⟨one,two,three,four⟩ := apart key (List.contains_iff_mem.mp isMap)
  rw [objectOf]
  split
  · rename_i inner found
    have here := polarity_field ok found
    unfold polarityField at here
    rw [if_neg one, if_neg two, if_neg three, four, isMap] at here
    exact polarity_map here
  · simp

theorem polarity_arrayOf {key : JsString} (isArrayKey : schemaArrayKeys.contains key = true) {items : List Json}
    (found : arrayOf? fields key = some items) : ∀ item ∈ items, polarityOk positive item = true := by
  have apart : ∀ key ∈ schemaArrayKeys,
      key ≠ js "not" ∧ key ≠ js "if" ∧ key ≠ js "contains" ∧ validatedValueKeys.contains key = false := by decide
  obtain ⟨one,two,three,four⟩ := apart key (List.contains_iff_mem.mp isArrayKey)
  rw [arrayOf?] at found
  split at found
  · rename_i inner here
    cases found
    have here := polarity_field ok here
    unfold polarityField at here
    rw [if_neg one, if_neg two, if_neg three, four, isArrayKey] at here
    exact polarity_items here
  · contradiction

end polarity

/- Maps and lists whose schemas are replaced one by one. -/
section replaced
variable {check check' : Check} {value : Subject} {path : Path} {f : Json → Json}

theorem lists_restored {items : List Json} (each : ∀ item ∈ items, Weaker check check' value path (f item) item) :
    WeakerLists check check' value path (items.map f) items := by
  rw [WeakerLists, List.forall₂_map_left_iff, List.forall₂_same]
  exact each

end replaced

theorem normalizeValue_value {key : JsString} (isValue : schemaValueKeys.contains key = true) (child : Json) :
    normalizeValue key child = normalizeOpenAIResponsesSchemaNode child := by
  have apart : ∀ key ∈ schemaValueKeys, schemaMapKeys.contains key = false ∧ schemaArrayKeys.contains key = false := by decide
  obtain ⟨noMap,noArray⟩ := apart key (List.contains_iff_mem.mp isValue)
  cases child with
  | obj fields => rw [normalizeValue, noMap, isValue]; rfl
  | arr items => rw [normalizeValue, noArray]; rfl
  | _ => rfl

theorem verbatim_value {key : JsString} (mem : key ∈ verbatimKeys) (child : Json) : normalizeValue key child = child := by
  have apart : ∀ key ∈ verbatimKeys, schemaMapKeys.contains key = false ∧ schemaValueKeys.contains key = false ∧
      schemaArrayKeys.contains key = false := by decide
  obtain ⟨noMap,noValue,noArray⟩ := apart key mem
  cases child with
  | obj fields => rw [normalizeValue, noMap, noValue]; rfl
  | arr items => rw [normalizeValue, noArray]; rfl
  | _ => rfl

section node
variable {fields : Fields} (listed : Listed fields)
include listed

theorem node_verbatim {key : JsString} (mem : key ∈ verbatimKeys) :
    getField (rebuildNode fields (normalizeFields fields)) key = getField fields key := by
  have apart : ∀ key ∈ verbatimKeys, key ≠ js "oneOf" ∧ key ≠ js "anyOf" ∧ key ≠ js "properties" := by decide
  obtain ⟨one,two,three⟩ := apart key mem
  rw [get_node listed one two three]
  cases getField fields key with
  | none => rfl
  | some child => rw [Option.map_some, verbatim_value mem]

theorem node_value {key : JsString} (isValue : schemaValueKeys.contains key = true) :
    getField (rebuildNode fields (normalizeFields fields)) key =
      (getField fields key).map normalizeOpenAIResponsesSchemaNode := by
  have apart : ∀ key ∈ schemaValueKeys, key ≠ js "oneOf" ∧ key ≠ js "anyOf" ∧ key ≠ js "properties" := by decide
  obtain ⟨one,two,three⟩ := apart key (List.contains_iff_mem.mp isValue)
  rw [get_node listed one two three]
  cases getField fields key with
  | none => rfl
  | some child => rw [Option.map_some, normalizeValue_value isValue, Option.map_some]

theorem node_reference : hasReference (rebuildNode fields (normalizeFields fields)) = hasReference fields := by
  rw [hasReference, hasReference, get_node listed (by decide) (by decide) (by decide)]
  cases getField fields (js "$ref") with
  | none => rfl
  | some child => cases child <;> rfl

end node

end JsonSchema
