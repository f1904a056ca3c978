import OpenAgents.Schema.KeywordLemmas

/- Tool schemas for the Responses endpoint: `oneOf` becomes `anyOf`, an empty schema `true`, and
   every object type gets `properties`. The cache by identity is left out: on an acyclic schema it
   only keeps shared nodes shared. -/
namespace JsonSchema
open JsText JsJson JsObject

def schemaArrayKeys : List JsString := [js "anyOf", js "oneOf", js "allOf", js "prefixItems"]

def schemaMapKeys : List JsString :=
  [js "properties", js "patternProperties", js "dependencies", js "dependentSchemas", js "$defs", js "definitions"]

def schemaValueKeys : List JsString :=
  [js "items", js "additionalItems", js "contains", js "contentSchema", js "propertyNames", js "if", js "then", js "else",
    js "not", js "additionalProperties", js "unevaluatedItems", js "unevaluatedProperties"]

def declaresObjectType : Option Json → Bool
  | some (.str type) => type == js "object"
  | some (.arr types) => types.any (· == .str (js "object"))
  | _ => false

def isUnion (field : JsString × Json) : Bool := field.1 == js "oneOf" && isArray field.2

def suppliesProperties (value : Fields) : Bool :=
  declaresObjectType (getField value (js "type")) && !hasField value (js "properties")

/- The node from its original and its normalized fields: the `oneOf` among them moves to `anyOf`. -/
def rebuildNode (value normalized : Fields) : Fields :=
  let output := assignAll (normalized.filter fun field => !isUnion field)
  let output := match arrayOf? normalized (js "oneOf") with
    | some rewritten => assignField output (js "anyOf") (.arr ((arrayOf? output (js "anyOf")).getD [] ++ rewritten))
    | none => output
  if suppliesProperties value then assignField output (js "properties") (.obj []) else output

/- Where nothing changes the node itself is the result. -/
def finishNode (value normalized : Fields) : Fields :=
  if normalized = value ∧ arrayOf? normalized (js "oneOf") = none ∧ suppliesProperties value = false then value
  else rebuildNode value normalized

def finishMap (value normalized : Fields) : Fields := if normalized = value then value else assignAll normalized

mutual

def normalizeOpenAIResponsesSchemaNode : Json → Json
  | .obj fields => if fields = [] then .bool true else .obj (finishNode fields (normalizeFields fields))
  | other => other

def normalizeFields : Fields → Fields
  | [] => []
  | (key, .obj child) :: rest =>
      (key,
        if schemaMapKeys.contains key then .obj (finishMap child (normalizeOpenAIResponsesSchemaMap child))
        else if schemaValueKeys.contains key then normalizeOpenAIResponsesSchemaNode (.obj child)
        else .obj child) :: normalizeFields rest
  | (key, .arr child) :: rest =>
      (key, if schemaArrayKeys.contains key then .arr (normalizeOpenAIResponsesSchemaArray child) else .arr child) ::
        normalizeFields rest
  | (key, child) :: rest => (key, child) :: normalizeFields rest

def normalizeOpenAIResponsesSchemaArray : List Json → List Json
  | [] => []
  | item :: rest => normalizeOpenAIResponsesSchemaNode item :: normalizeOpenAIResponsesSchemaArray rest

def normalizeOpenAIResponsesSchemaMap : Fields → Fields
  | [] => []
  | (key, child) :: rest => (key, normalizeOpenAIResponsesSchemaNode child) :: normalizeOpenAIResponsesSchemaMap rest

end

def sanitizeSchemaForOpenAIResponses (schema : Json) : Json := normalizeOpenAIResponsesSchemaNode schema

/- What becomes of the value of one key. -/
def normalizeValue (key : JsString) : Json → Json
  | .obj child =>
      if schemaMapKeys.contains key then .obj (finishMap child (normalizeOpenAIResponsesSchemaMap child))
      else if schemaValueKeys.contains key then normalizeOpenAIResponsesSchemaNode (.obj child)
      else .obj child
  | .arr child => if schemaArrayKeys.contains key then .arr (normalizeOpenAIResponsesSchemaArray child) else .arr child
  | child => child

theorem normalizeFields_eq (fields : Fields) :
    normalizeFields fields = fields.map fun field => (field.1, normalizeValue field.1 field.2) := by
  induction fields with
  | nil => rw [normalizeFields]; rfl
  | cons field rest ih =>
    obtain ⟨key,child⟩ := field
    cases child <;> simp [normalizeFields, normalizeValue, ih]

theorem normalizeArray_eq (items : List Json) :
    normalizeOpenAIResponsesSchemaArray items = items.map normalizeOpenAIResponsesSchemaNode := by
  induction items with
  | nil => rw [normalizeOpenAIResponsesSchemaArray]; rfl
  | cons item rest ih => rw [normalizeOpenAIResponsesSchemaArray, ih, List.map_cons]

theorem normalizeMap_eq (fields : Fields) :
    normalizeOpenAIResponsesSchemaMap fields =
      fields.map fun field => (field.1, normalizeOpenAIResponsesSchemaNode field.2) := by
  induction fields with
  | nil => rw [normalizeOpenAIResponsesSchemaMap]; rfl
  | cons field rest ih => rw [normalizeOpenAIResponsesSchemaMap, ih, List.map_cons]

theorem normalizeMap_listed {fields : Fields} (listed : Listed fields) :
    finishMap fields (normalizeOpenAIResponsesSchemaMap fields) =
      fields.map fun field => (field.1, normalizeOpenAIResponsesSchemaNode field.2) := by
  rw [finishMap]
  split
  · rename_i same
    rw [← normalizeMap_eq, same]
  rw [normalizeMap_eq]
  apply assignAll_listed
  apply listed_of_keys _ listed
  rw [List.map_map]
  rfl

theorem normalized_listed {fields : Fields} (listed : Listed fields) :
    Listed ((normalizeFields fields).filter fun field => !isUnion field) := by
  apply listed_sublist List.filter_sublist
  apply listed_of_keys _ listed
  rw [normalizeFields_eq, List.map_map]
  rfl

theorem get_normalized (fields : Fields) (key : JsString) :
    getField (normalizeFields fields) key = (getField fields key).map (normalizeValue key) := by
  rw [normalizeFields_eq]
  exact get_map normalizeValue key

theorem get_filter {fields : Fields} {p : JsString × Json → Bool} {key : JsString}
    (kept : ∀ value, getField fields key = some value → p (key, value) = true) :
    getField (fields.filter p) key = getField fields key := by
  induction fields with
  | nil => rfl
  | cons field rest ih =>
    rw [get_cons] at kept
    rw [get_cons, List.filter_cons]
    by_cases here : field.1 = key
    · rw [if_pos here] at kept
      have passes := kept field.2 rfl
      rw [← here] at passes
      rw [if_pos passes, get_cons, if_pos here, if_pos here]
    · rw [if_neg here] at kept
      rw [if_neg here, ← ih kept]
      split
      · rw [get_cons, if_neg here]
      · rfl

section node
variable {fields : Fields}

/-- The fields before `anyOf` and `properties` are written. -/
theorem get_other (listed : Listed fields) {key : JsString} (other : key ≠ js "oneOf") :
    getField (assignAll ((normalizeFields fields).filter fun field => !isUnion field)) key =
      (getField fields key).map (normalizeValue key) := by
  rw [assignAll_listed (normalized_listed listed), get_filter, get_normalized]
  intro value _
  simp [isUnion, other]

/- The fields after the union is written. -/
def unite (normalized output : Fields) : Fields :=
  match arrayOf? normalized (js "oneOf") with
  | some rewritten => assignField output (js "anyOf") (.arr ((arrayOf? output (js "anyOf")).getD [] ++ rewritten))
  | none => output

theorem get_unite (normalized output : Fields) {key : JsString} (notAny : key ≠ js "anyOf") :
    getField (unite normalized output) key = getField output key := by
  rw [unite]
  split
  · rw [get_assign _ (by decide), if_neg notAny.symm]
  · rfl

theorem rebuildNode_eq (fields normalized : Fields) : rebuildNode fields normalized =
    (let united := unite normalized (assignAll (normalized.filter fun field => !isUnion field))
    if suppliesProperties fields then assignField united (js "properties") (.obj []) else united) := rfl

theorem get_finished (fields normalized : Fields) {key : JsString} (notProperties : key ≠ js "properties") :
    getField (rebuildNode fields normalized) key =
      getField (unite normalized (assignAll (normalized.filter fun field => !isUnion field))) key := by
  rw [rebuildNode_eq]
  dsimp only
  split
  · rw [get_assign _ (by decide), if_neg notProperties.symm]
  · rfl

/-- A key that is neither moved nor supplied. -/
theorem get_node (listed : Listed fields) {key : JsString} (notOne : key ≠ js "oneOf") (notAny : key ≠ js "anyOf")
    (notProperties : key ≠ js "properties") :
    getField (rebuildNode fields (normalizeFields fields)) key = (getField fields key).map (normalizeValue key) := by
  rw [get_finished _ _ notProperties, get_unite _ _ notAny, get_other listed notOne]

theorem arrayOf_of_get {output : Fields} {key : JsString} (isArrayKey : schemaArrayKeys.contains key = true)
    (same : getField output key = (getField fields key).map (normalizeValue key)) :
    arrayOf? output key = (arrayOf? fields key).map (List.map normalizeOpenAIResponsesSchemaNode) := by
  have apart : ∀ key ∈ schemaArrayKeys, schemaMapKeys.contains key = false ∧ schemaValueKeys.contains key = false := by decide
  obtain ⟨noMap,noValue⟩ := apart key (List.contains_iff_mem.mp isArrayKey)
  rw [arrayOf?, arrayOf?, same]
  cases getField fields key with
  | none => rfl
  | some value =>
    cases value with
    | arr child => rw [Option.map_some, normalizeValue, if_pos isArrayKey, normalizeArray_eq]; rfl
    | obj child => rw [Option.map_some, normalizeValue, noMap, noValue]; rfl
    | _ => rfl

theorem objectOf_of_get {output : Fields} {key : JsString} (isMapKey : schemaMapKeys.contains key = true)
    (listed : Listed (objectOf fields key)) (same : getField output key = (getField fields key).map (normalizeValue key)) :
    objectOf output key =
      (objectOf fields key).map fun field => (field.1, normalizeOpenAIResponsesSchemaNode field.2) := by
  have apart : ∀ key ∈ schemaMapKeys, schemaArrayKeys.contains key = false := by decide
  have noArray := apart key (List.contains_iff_mem.mp isMapKey)
  rw [objectOf] at listed
  rw [objectOf, objectOf, same]
  cases found : getField fields key with
  | none => rfl
  | some value =>
    rw [found] at listed
    cases value with
    | obj child => rw [Option.map_some, normalizeValue, if_pos isMapKey, normalizeMap_listed listed]
    | arr child => rw [Option.map_some, normalizeValue, noArray]; rfl
    | _ => rfl

theorem node_oneOf (listed : Listed fields) : arrayOf? (rebuildNode fields (normalizeFields fields)) (js "oneOf") = none := by
  rw [arrayOf?, get_finished _ _ (by decide), get_unite _ _ (by decide), assignAll_listed (normalized_listed listed)]
  split
  · rename_i items found
    have mem := List.mem_filter.mp (mem_of_get found)
    simp [isUnion, isArray] at mem
  · rfl

theorem normalized_oneOf : arrayOf? (normalizeFields fields) (js "oneOf") =
    (arrayOf? fields (js "oneOf")).map (List.map normalizeOpenAIResponsesSchemaNode) :=
  arrayOf_of_get (by decide) (get_normalized fields _)

/-- The branches of both unions, or of the one there is. -/
theorem node_anyOf (listed : Listed fields) : arrayOf? (rebuildNode fields (normalizeFields fields)) (js "anyOf") =
    match arrayOf? fields (js "oneOf") with
    | some branches =>
        some (((arrayOf? fields (js "anyOf")).getD [] ++ branches).map normalizeOpenAIResponsesSchemaNode)
    | none => (arrayOf? fields (js "anyOf")).map (List.map normalizeOpenAIResponsesSchemaNode) := by
  have own := arrayOf_of_get (by decide) (@get_other fields listed (js "anyOf") (by decide))
  rw [arrayOf?, get_finished _ _ (by decide), unite, normalized_oneOf]
  cases arrayOf? fields (js "oneOf") with
  | none =>
    rw [← own]
    rfl
  | some branches =>
    simp only [Option.map_some]
    rw [get_assign _ (by decide), if_pos rfl, own, List.map_append]
    cases arrayOf? fields (js "anyOf") <;> rfl

theorem node_properties (listed : Listed fields) (inner : Listed (objectOf fields (js "properties"))) :
    objectOf (rebuildNode fields (normalizeFields fields)) (js "properties") =
      (objectOf fields (js "properties")).map fun field => (field.1, normalizeOpenAIResponsesSchemaNode field.2) := by
  have own : getField (unite (normalizeFields fields)
      (assignAll ((normalizeFields fields).filter fun field => !isUnion field))) (js "properties") =
        (getField fields (js "properties")).map (normalizeValue (js "properties")) := by
    rw [get_unite _ _ (by decide), get_other listed (by decide)]
  rw [rebuildNode_eq]
  dsimp only
  split
  · rename_i supplied
    rw [suppliesProperties, Bool.and_eq_true, Bool.not_eq_true', ← Bool.not_eq_true, has_iff, ← get_none_iff] at supplied
    rw [objectOf, objectOf, get_assign _ (by decide), if_pos rfl, supplied.2]
    rfl
  · exact objectOf_of_get (by decide) inner own

end node

/-- A node that needs no change. -/
theorem finish_fixed {fields : Fields} (listed : Listed fields) (noUnion : arrayOf? fields (js "oneOf") = none)
    (typed : suppliesProperties fields = false) :
    rebuildNode fields fields = fields := by
  have kept : fields.filter (fun field => !isUnion field) = fields := by
    rw [List.filter_eq_self]
    intro field mem
    rw [Bool.not_eq_true']
    cases union : isUnion field with
    | false => rfl
    | true =>
      simp only [isUnion, Bool.and_eq_true, beq_iff_eq] at union
      obtain ⟨key,array⟩ := union
      have found : getField fields (js "oneOf") = some field.2 := by
        apply get_of_mem (listed_nodup listed)
        rw [← key]
        exact mem
      cases value : field.2 with
      | arr items => simp [arrayOf?, found, value] at noUnion
      | _ => simp [value, isArray] at array
  rw [rebuildNode_eq, kept, assignAll_listed listed, unite, noUnion, typed]
  rfl

theorem finished_rebuilt {fields : Fields} (listed : Listed fields) :
    finishNode fields (normalizeFields fields) = rebuildNode fields (normalizeFields fields) := by
  rw [finishNode]
  split
  · rename_i unchanged
    obtain ⟨same,noUnion,typed⟩ := unchanged
    rw [same] at noUnion ⊢
    exact (finish_fixed listed noUnion typed).symm
  · rfl

end JsonSchema
