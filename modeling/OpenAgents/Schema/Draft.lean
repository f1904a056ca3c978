import OpenAgents.Schema.Validator

/- The upgrade of legacy keywords to draft 2020-12. A schema is a tree here, so the cache that keeps
   shared nodes shared is left out, and so are keys named `__proto__`. -/
namespace JsonSchema
open JsText JsJson JsObject

def draft07SchemaUris : List JsString :=
  [js "http://json-schema.org/draft-07/schema#", js "https://json-schema.org/draft-07/schema#",
    js "http://json-schema.org/draft-07/schema", js "https://json-schema.org/draft-07/schema"]

def draft202012Uri : JsString := js "https://json-schema.org/draft/2020-12/schema"

def draftMapKeys : List JsString := [js "properties", js "patternProperties", js "dependentSchemas"]

def nonSchemaValueKeys : List JsString :=
  [js "const", js "default", js "enum", js "example", js "examples", js "required", js "dependentRequired", js "type"]

/- `key in record` for a record of constants. -/
def inRecord (keys : List JsString) (key : JsString) : Bool := keys.contains key || inheritedNames.contains key

def isDefinitionsKey (key : JsString) : Bool := key == js "definitions" || key == js "$defs"

def isDroppedKey (key : JsString) : Bool :=
  key == js "dependencies" || key == js "additionalItems" || key == js "nullable"

def convertRef (value : JsString) : JsString :=
  if startsWith value (js "#/definitions/") then js "#/$defs/" ++ value.drop (js "#/definitions/").length else value

/- Every entry of the map is assigned to the one at the key, which is made where there is none. -/
def mergeSchemaMap (target : Fields) (key : JsString) (converted : Fields) : Fields :=
  assignField target key (.obj (converted.foldl (fun map field => assignField map field.1 field.2) (objectOf target key)))

def combineSchemas (left : Option Json) (right : Json) : Json :=
  match left with
  | none => right
  | some (.bool true) => right
  | some left =>
      if right = .bool true then left
      else if left = .bool false ∨ right = .bool false then .bool false
      else if areJsonValuesEqual left right then left
      else .obj [(js "allOf", .arr [left, right])]

def mergeArrayValues (left right : List Json) : List Json :=
  right.foldl (fun merged value => if merged.any (areJsonValuesEqual · value) then merged else merged ++ [value]) left

def mergeItems : List Json → List Json → List Json
  | existing, [] => existing
  | [], converted => converted
  | existing :: rest, item :: more => combineSchemas (some existing) item :: mergeItems rest more

def mergePrefixItems (existing : Option Json) (convertedItems : List Json) : List Json :=
  match existing with
  | some (.arr existing) => mergeItems existing convertedItems
  | _ => convertedItems

/- An existing entry that is no array stays, and so does what every object inherits. -/
def mergeDependentRequired (target : Fields) (key : JsString) (deps : List Json) : Fields :=
  let map := objectOf target (js "dependentRequired")
  assignField target (js "dependentRequired") (.obj (match getField map key with
    | some (.arr existing) => assignField map key (.arr (mergeArrayValues existing deps))
    | some _ => map
    | none => if inheritedNames.contains key then map else assignField map key (.arr deps)))

/- What is inherited is a function, and `null` stands for it: neither is a schema. -/
def mergeDependentSchema (target : Fields) (key : JsString) (schema : Json) : Fields :=
  let map := objectOf target (js "dependentSchemas")
  let existing := match getField map key with
    | some existing => some existing
    | none => if inheritedNames.contains key then some .null else none
  assignField target (js "dependentSchemas") (.obj (assignField map key (combineSchemas existing schema)))

def convertDependency (target : Fields) (field : JsString × Json) : Fields :=
  match field.2 with
  | .arr deps => mergeDependentRequired target field.1 deps
  | schema => mergeDependentSchema target field.1 schema

def hasNullType (type : Option Json) : Bool :=
  match type with
  | some (.str type) => type == js "null"
  | some (.arr types) => types.any (· == .str (js "null"))
  | _ => false

def hasNullVariant (variants : List Json) : Bool :=
  variants.any fun variant => match variant with
    | .obj fields => hasNullType (getField fields (js "type"))
    | _ => false

def nullSchema : Json := .obj [(js "type", .str (js "null"))]

def makeNullable (schema : Fields) : Fields :=
  match getField schema (js "type") with
  | some (.str type) =>
      if type = js "null" then schema else assignField schema (js "type") (.arr [.str type, .str (js "null")])
  | some (.arr types) =>
      if hasNullType (some (.arr types)) then schema
      else assignField schema (js "type") (.arr (types ++ [.str (js "null")]))
  | _ =>
      match arrayOf? schema (js "anyOf") with
      | some variants =>
          if hasNullVariant variants then schema else assignField schema (js "anyOf") (.arr (variants ++ [nullSchema]))
      | none => [(js "anyOf", .arr [.obj schema, nullSchema])]

/- One round of the loop over the keywords; `converted` is what the recursion makes of the entry. -/
def upgradeField (result : Fields) (key : JsString) (entry converted : Json) : Fields :=
  if isDefinitionsKey key then (match converted with | .obj map => mergeSchemaMap result (js "$defs") map | _ => result)
  else if inRecord draftMapKeys key then
    (match converted with | .obj map => mergeSchemaMap result key map | other => assignField result key other)
  else if inRecord nonSchemaValueKeys key then assignField result key entry
  else if isDroppedKey key then result
  else if key = js "$schema" then
    assignField result key (match entry with
      | .str uri => .str (if inRecord draft07SchemaUris uri then draft202012Uri else uri)
      | other => other)
  else if key = js "$ref" then
    assignField result key (match entry with | .str ref => .str (convertRef ref) | _ => converted)
  else if key = js "items" then (match entry with | .arr _ => result | _ => assignField result key converted)
  else assignField result key converted

/- After the loop: tuples, dependencies, nullability. -/
def finishUpgrade (value converted result : Fields) : Fields :=
  let result := match arrayOf? value (js "items") with
    | some _ =>
        let items := (arrayOf? converted (js "items")).getD []
        let result := assignField result (js "prefixItems") (.arr (mergePrefixItems (getField result (js "prefixItems")) items))
        match getField converted (js "additionalItems") with
        | none => result
        | some (.bool true) => result
        | some rest => assignField result (js "items") rest
    | none => result
  let result := (objectOf converted (js "dependencies")).foldl convertDependency result
  if isTrue? value (js "nullable") then makeNullable result else result

def assembleUpgrade (value converted : Fields) : Fields :=
  finishUpgrade value converted
    ((value.zip converted).foldl (fun result (field, next) => upgradeField result field.1 field.2 next.2) [])

mutual

def upgradeJsonSchemaTo202012Impl : Json → Json
  | .arr items => .arr (upgradeItems items)
  | .obj value => .obj (assembleUpgrade value (upgradeFields value))
  | other => other

def upgradeItems : List Json → List Json
  | [] => []
  | item :: rest => upgradeJsonSchemaTo202012Impl item :: upgradeItems rest

/- Maps of schemas are upgraded entry by entry. -/
def upgradeFields : Fields → Fields
  | [] => []
  | (key, .obj child) :: rest =>
      (key,
        if isDefinitionsKey key || inRecord draftMapKeys key || key == js "dependencies" then .obj (upgradeMap child)
        else upgradeJsonSchemaTo202012Impl (.obj child)) :: upgradeFields rest
  | (key, child) :: rest =>
      (key, if inRecord draftMapKeys key then child else upgradeJsonSchemaTo202012Impl child) :: upgradeFields rest

def upgradeMap : Fields → Fields
  | [] => []
  | (key, child) :: rest => (key, upgradeJsonSchemaTo202012Impl child) :: upgradeMap rest

end

mutual

def schemaNeedsDraft202012Upgrade : Json → Bool
  | .arr items => itemsNeedUpgrade items
  | .obj value => fieldsNeedUpgrade value
  | _ => false

def itemsNeedUpgrade : List Json → Bool
  | [] => false
  | item :: rest => schemaNeedsDraft202012Upgrade item || itemsNeedUpgrade rest

def fieldsNeedUpgrade : Fields → Bool
  | [] => false
  | (key, entry) :: rest =>
      (if key = js "$schema" then (match entry with | .str uri => inRecord draft07SchemaUris uri | _ => false)
        else if key = js "definitions" ∨ isDroppedKey key = true then true
        else if key = js "$ref" then (match entry with | .str ref => startsWith ref (js "#/definitions/") | _ => false)
        else match entry with
          | .obj map =>
              if key = js "$defs" ∨ inRecord draftMapKeys key = true then schemaMapNeedsDraft202012Upgrade map
              else !inRecord nonSchemaValueKeys key && fieldsNeedUpgrade map
          | .arr items =>
              if key = js "items" then true
              else if key = js "$defs" ∨ inRecord draftMapKeys key = true then false
              else !inRecord nonSchemaValueKeys key && itemsNeedUpgrade items
          | _ => false) || fieldsNeedUpgrade rest

def schemaMapNeedsDraft202012Upgrade : Fields → Bool
  | [] => false
  | (_, entry) :: rest => schemaNeedsDraft202012Upgrade entry || schemaMapNeedsDraft202012Upgrade rest

end

def upgradeJsonSchemaTo202012 (schema : Json) : Json :=
  if schemaNeedsDraft202012Upgrade schema then upgradeJsonSchemaTo202012Impl schema else schema

end JsonSchema
