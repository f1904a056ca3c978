import OpenAgents.Lib.Json

/- Equality of JSON values. -/
namespace JsonSchema
open JsText JsJson JsObject

mutual

def areJsonValuesEqual : Json → Json → Bool
  | .null, .null => true
  | .bool left, .bool right => left == right
  | .num left, .num right => left == right
  | .str left, .str right => left == right
  | .arr left, .arr right => equalItems left right
  | .obj left, .obj right => equalFields left right && left.length == right.length
  | _, _ => false

def equalItems : List Json → List Json → Bool
  | [], [] => true
  | left :: lefts, right :: rights => areJsonValuesEqual left right && equalItems lefts rights
  | _, _ => false

/- Each property of the left object has its equal in the right one. -/
def equalFields : Fields → Fields → Bool
  | [], _ => true
  | (key, left) :: rest, fields =>
      (match getField fields key with
        | some right => areJsonValuesEqual left right
        | none => false) && equalFields rest fields

end

end JsonSchema

/- The in-tree validator of JSON values against JSON Schema. Of its issues only their absence is
   kept. A check of a sub-schema gets the value and its path, which tells values apart by their
   place as the validator does by identity. -/
namespace JsonSchema
open JsText JsJson JsObject

/-- Regular expressions and numbers are those of the host; numbers are given by their canonical
    texts. `less a b` is `a < b`, and `isMultiple` the test for `multipleOf`. -/
structure Runtime where
  regex : JsString → Option (JsString → Bool)
  isInteger : JsString → Bool
  less : JsString → JsString → Bool
  isMultiple : JsString → JsString → Bool
  less_count : ∀ (m n : Nat) (bound : JsString), m ≤ n → less (decimal n) bound = true → less (decimal m) bound = true

inductive PathKey where
  | name (key : JsString)
  | index (i : Nat)
  deriving DecidableEq

abbrev Path := List PathKey

instance : LawfulBEq (JsString × Path) := inferInstance

/- What is validated: a JSON value or, where a property of every object is read, a function. -/
abbrev Subject := Option Json

abbrev Check := Json → Subject → Path → Bool

def isObject : Json → Bool
  | .obj _ => true
  | _ => false

def isArray : Json → Bool
  | .arr _ => true
  | _ => false

def matchesJsonSchemaType (rt : Runtime) (value : Json) (type : JsString) : Bool :=
  if type = js "string" then (match value with | .str _ => true | _ => false)
  else if type = js "number" then (match value with | .num _ => true | _ => false)
  else if type = js "integer" then (match value with | .num text => rt.isInteger text | _ => false)
  else if type = js "boolean" then (match value with | .bool _ => true | _ => false)
  else if type = js "object" then isObject value
  else if type = js "array" then isArray value
  else if type = js "null" then (match value with | .null => true | _ => false)
  else false

def stringOf? : Json → Option JsString
  | .str text => some text
  | _ => none

def isTrue? (schema : Fields) (key : JsString) : Bool := getField schema key == some (.bool true)

def schemaTypes (schema : Fields) : List JsString :=
  let types := match getField schema (js "type") with
    | some (.str type) => [type]
    | some (.arr types) => types.filterMap stringOf?
    | _ => []
  if isTrue? schema (js "nullable") && !types.contains (js "null") then types ++ [js "null"] else types

def decodePointerToken : JsString → JsString
  | 126 :: 49 :: rest => 47 :: decodePointerToken rest
  | 126 :: 48 :: rest => 126 :: decodePointerToken rest
  | c :: rest => c :: decodePointerToken rest
  | [] => []

/- One step of a pointer: a property, or an item of an array. -/
def pointerStep (current : Json) (token : JsString) : Option Json :=
  match current with
  | .obj fields => getField fields token
  | .arr items => (arrayIndex? token).bind fun i => items[i]?
  | _ => none

def slash : CodeUnit := 47

def resolveLocalRef (root : Json) (ref : JsString) : Option Json :=
  if ref = js "#" then some root
  else if startsWith ref (js "#/") then
    ((ref.drop 2).splitOn slash).foldlM (fun current token => pointerStep current (decodePointerToken token)) root
  else none

def objectOf (schema : Fields) (key : JsString) : Fields :=
  match getField schema key with
  | some (.obj fields) => fields
  | _ => []

def arrayOf? (schema : Fields) (key : JsString) : Option (List Json) :=
  match getField schema key with
  | some (.arr items) => some items
  | _ => none

def numberOf? (schema : Fields) (key : JsString) : Option JsString :=
  match getField schema key with
  | some (.num text) => some text
  | _ => none

/- The bounds on a length. -/
def withinBounds (rt : Runtime) (schema : Fields) (lowest highest : JsString) (length : Nat) : Bool :=
  !(numberOf? schema lowest).any (rt.less (decimal length) ·) && !(numberOf? schema highest).any (rt.less · (decimal length))

def isRequiredSet (items : List Json) : Bool := items.all fun item => (stringOf? item).isSome

def requiredOk (schema value : Fields) : Bool :=
  match getField schema (js "required") with
  | some (.arr items) => !isRequiredSet items || (items.filterMap stringOf?).all (inObject value)
  | _ => true

def propertiesOk (check : Check) (schema value : Fields) (path : Path) : Bool :=
  (objectOf schema (js "properties")).all fun (key, property) =>
    match getField value key with
    | some item => check property (some item) (path ++ [.name key])
    | none => !inObject value key || check property none (path ++ [.name key])

def propertyNamesOk (check : Check) (schema value : Fields) (path : Path) : Bool :=
  match getField schema (js "propertyNames") with
  | some names => value.all fun (key, _) => check names (some (.str key)) (path ++ [.name key])
  | none => true

def patternPropertiesOk (rt : Runtime) (check : Check) (schema value : Fields) (path : Path) : Bool :=
  (objectOf schema (js "patternProperties")).all fun (pattern, property) =>
    match rt.regex pattern with
    | some test => value.all fun (key, item) => !test key || check property (some item) (path ++ [.name key])
    | none => false

def dependentRequiredOk (schema value : Fields) : Bool :=
  (objectOf schema (js "dependentRequired")).all fun (key, deps) =>
    match deps with
    | .arr deps => !inObject value key || (deps.filterMap stringOf?).all (inObject value)
    | _ => true

def dependentSchemasOk (check : Check) (schema value : Fields) (path : Path) : Bool :=
  (objectOf schema (js "dependentSchemas")).all fun (key, dependent) =>
    !inObject value key || check dependent (some (.obj value)) path

def matchesPattern (rt : Runtime) (key pattern : JsString) : Bool :=
  match rt.regex pattern with
  | some test => test key
  | none => false

/- Keys that `properties` or `patternProperties` speak of. -/
def isKnown (rt : Runtime) (schema : Fields) (key : JsString) : Bool :=
  hasField (objectOf schema (js "properties")) key ||
    (objectOf schema (js "patternProperties")).any fun field => matchesPattern rt key field.1

def additionalPropertiesOk (rt : Runtime) (check : Check) (schema value : Fields) (path : Path) : Bool :=
  match getField schema (js "additionalProperties") with
  | some (.bool true) => true
  | some (.bool false) => value.all fun (key, _) => isKnown rt schema key
  | some additional => value.all fun (key, item) => isKnown rt schema key || check additional (some item) (path ++ [.name key])
  | none => true

def validateObjectKeywords (rt : Runtime) (check : Check) (schema value : Fields) (path : Path) : Bool :=
  requiredOk schema value && propertiesOk check schema value path && propertyNamesOk check schema value path &&
    patternPropertiesOk rt check schema value path && dependentRequiredOk schema value &&
    dependentSchemasOk check schema value path && additionalPropertiesOk rt check schema value path &&
    withinBounds rt schema (js "minProperties") (js "maxProperties") value.length

def uniqueItems : List Json → Bool
  | [] => true
  | item :: rest => !rest.any (areJsonValuesEqual item) && uniqueItems rest

def checkEach (check : Check) (schema : Json) (items : List (Json × Nat)) (path : Path) : Bool :=
  items.all fun (item, i) => check schema (some item) (path ++ [.index i])

/- `prefixItems` by position, and `items` for the rest. -/
def itemsOk (check : Check) (schema : Fields) (value : List Json) (path : Path) : Bool :=
  match getField schema (js "items") with
  | some (.arr _) => false
  | items =>
      let front := (arrayOf? schema (js "prefixItems")).getD []
      ((front.zip value.zipIdx).all fun (entry, item, i) => check entry (some item) (path ++ [.index i])) &&
        match items with
        | some rest => checkEach check rest (value.zipIdx.drop front.length) path
        | none => true

def containsCount (check : Check) (contained : Json) (value : List Json) (path : Path) : Nat :=
  value.zipIdx.countP fun (item, i) => check contained (some item) (path ++ [.index i])

def containsOk (rt : Runtime) (check : Check) (schema : Fields) (value : List Json) (path : Path) : Bool :=
  match getField schema (js "contains") with
  | some contained =>
      let count := containsCount check contained value path
      let minContains := (numberOf? schema (js "minContains")).getD (decimal 1)
      !rt.less (decimal count) minContains && !(numberOf? schema (js "maxContains")).any (rt.less · (decimal count))
  | none => true

def validateArrayKeywords (rt : Runtime) (check : Check) (schema : Fields) (value : List Json) (path : Path) : Bool :=
  withinBounds rt schema (js "minItems") (js "maxItems") value.length &&
    (!isTrue? schema (js "uniqueItems") || uniqueItems value) && itemsOk check schema value path &&
    containsOk rt check schema value path

def validateStringKeywords (rt : Runtime) (schema : Fields) (value : JsString) : Bool :=
  withinBounds rt schema (js "minLength") (js "maxLength") value.length &&
    match getField schema (js "pattern") with
    | some (.str pattern) => (match rt.regex pattern with | some test => test value | none => false)
    | _ => true

/- `a <= b`; equal numbers have the same text. -/
def atMost (rt : Runtime) (a b : JsString) : Bool := rt.less a b || a == b

def validateNumberKeywords (rt : Runtime) (schema : Fields) (value : JsString) : Bool :=
  let minimum := numberOf? schema (js "minimum")
  let maximum := numberOf? schema (js "maximum")
  !minimum.any (rt.less value ·) && !maximum.any (rt.less · value) &&
    !(numberOf? schema (js "exclusiveMinimum")).any (atMost rt value ·) &&
    !(numberOf? schema (js "exclusiveMaximum")).any (atMost rt · value) &&
    !(isTrue? schema (js "exclusiveMinimum") && minimum.any (atMost rt value ·)) &&
    !(isTrue? schema (js "exclusiveMaximum") && maximum.any (atMost rt · value)) &&
    match numberOf? schema (js "multipleOf") with
    | some divisor => !rt.less (decimal 0) divisor || rt.isMultiple value divisor
    | none => true

def typeOk (rt : Runtime) (schema : Fields) (value : Subject) : Bool :=
  (schemaTypes schema).isEmpty || (schemaTypes schema).any fun type => value.any (matchesJsonSchemaType rt · type)

def constOk (schema : Fields) (value : Subject) : Bool :=
  match getField schema (js "const") with
  | some constant => value.any (areJsonValuesEqual · constant)
  | none => true

def enumOk (schema : Fields) (value : Subject) : Bool :=
  match arrayOf? schema (js "enum") with
  | some entries => entries.any fun entry => value.any (areJsonValuesEqual entry ·)
  | none => true

def anyOfOk (check : Check) (schema : Fields) (value : Subject) (path : Path) : Bool :=
  match arrayOf? schema (js "anyOf") with
  | some branches => branches.any fun branch => check branch value path
  | none => true

def oneOfOk (check : Check) (schema : Fields) (value : Subject) (path : Path) : Bool :=
  match arrayOf? schema (js "oneOf") with
  | some branches => branches.countP (fun branch => check branch value path) == 1
  | none => true

def allOfOk (check : Check) (schema : Fields) (value : Subject) (path : Path) : Bool :=
  match arrayOf? schema (js "allOf") with
  | some branches => branches.all fun branch => check branch value path
  | none => true

def notOk (check : Check) (schema : Fields) (value : Subject) (path : Path) : Bool :=
  match getField schema (js "not") with
  | some excluded => !check excluded value path
  | none => true

def conditionOk (check : Check) (schema : Fields) (value : Subject) (path : Path) : Bool :=
  match getField schema (js "if") with
  | some condition =>
      match getField schema (if check condition value path then js "then" else js "else") with
      | some branch => check branch value path
      | none => true
  | none => true

/- The keywords that apply to values of one kind. -/
def kindOk (rt : Runtime) (check : Check) (schema : Fields) (value : Subject) (path : Path) : Bool :=
  match value with
  | some (.obj fields) => validateObjectKeywords rt check schema fields path
  | some (.arr items) => validateArrayKeywords rt check schema items path
  | some (.str text) => validateStringKeywords rt schema text
  | some (.num text) => validateNumberKeywords rt schema text
  | _ => true

/- The keywords of a node without `$ref`. -/
def validateKeywords (rt : Runtime) (check : Check) (schema : Fields) (value : Subject) (path : Path) : Bool :=
  if value = some .null ∧ isTrue? schema (js "nullable") = true then true
  else
    typeOk rt schema value && constOk schema value && enumOk schema value && anyOfOk check schema value path &&
      oneOfOk check schema value path && allOfOk check schema value path && notOk check schema value path &&
      conditionOk check schema value path && kindOk rt check schema value path

/-- What is under way: references followed at a place, and how often one was followed for a value
    without identity. -/
structure ValidationContext where
  root : Json
  seenPairs : List (JsString × Path)
  refDepth : Nat

def maxRefDepth : Nat := 64

def hasIdentity : Json → Bool
  | .obj _ => true
  | .arr _ => true
  | _ => false

/- The fuel is spent by one at each nested check. -/
def validateSchemaNode (rt : Runtime) : Nat → ValidationContext → Check
  | 0, _, _, _, _ => false
  | _ + 1, _, .bool verdict, _, _ => verdict
  | fuel + 1, ctx, .obj schema, value, path =>
      match getField schema (js "$ref") with
      | some (.str ref) =>
          match resolveLocalRef ctx.root ref with
          | none => false
          | some resolved =>
              if value.any hasIdentity then
                if (ref, path) ∈ ctx.seenPairs then true
                else
                  validateSchemaNode rt fuel { ctx with seenPairs := (ref, path) :: ctx.seenPairs } resolved value path
              else if maxRefDepth ≤ ctx.refDepth then false
              else validateSchemaNode rt fuel { ctx with refDepth := ctx.refDepth + 1 } resolved value path
      | _ => validateKeywords rt (validateSchemaNode rt fuel ctx) schema value path
  | _ + 1, _, _, _, _ => false

mutual

def depth : Json → Nat
  | .arr items => depthItems items + 1
  | .obj fields => depthFields fields + 1
  | _ => 0

def depthItems : List Json → Nat
  | [] => 0
  | item :: rest => max (depth item) (depthItems rest)

def depthFields : Fields → Nat
  | [] => 0
  | (_, value) :: rest => max (depth value) (depthFields rest)

end

mutual

/- The number of values in a value. -/
def count : Json → Nat
  | .arr items => countItems items + 1
  | .obj fields => countFields fields + 1
  | _ => 1

def countItems : List Json → Nat
  | [] => 0
  | item :: rest => count item + countItems rest

def countFields : Fields → Nat
  | [] => 0
  | (_, value) :: rest => count value + countFields rest

end

/-- Between two references the schema gets shallower; at each depth of the value a reference is
    followed at most once, and `maxRefDepth` times where the value has no identity. -/
def enoughFuel (schema value : Json) : Nat :=
  ((depth value + 1) * (count schema + 1) + maxRefDepth + 1) * (depth schema + 1) + depth schema + 1

def isJsonSchemaValueValid (rt : Runtime) (schema value : Json) : Bool :=
  validateSchemaNode rt (enoughFuel schema value) ⟨schema,[],0⟩ schema (some value) []

end JsonSchema
