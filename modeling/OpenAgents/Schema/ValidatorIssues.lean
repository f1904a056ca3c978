import OpenAgents.Schema.Validator

/- The validator with the issues it collects. A check adds its issues to a list it is given and answers
   whether it found none; a branch that is only tried gets a list of its own. Without fuel there is no answer. -/
namespace JsonSchemaIssues
open JsText JsJson JsObject JsonSchema

structure Issue where
  path : Path
  message : JsString
  keyword : JsString
  expectedTypes : Option (List JsString)
  deriving DecidableEq

abbrev Step := List Issue → Option (Bool × List Issue)
abbrev Checker := Json → Subject → Path → Step

def passed : Step := fun issues => some (true, issues)

def failed (path : Path) (message keyword : JsString) : Step := fun issues => some (false, issues ++ [⟨path,message,keyword,none⟩])

def expect (accepted : Bool) (path : Path) (message keyword : JsString) : Step :=
  if accepted then passed else failed path message keyword

/- `valid = second && valid` behind the first; both add their issues. -/
def both (first second : Step) : Step := fun issues =>
  match first issues with
  | none => none
  | some (valid, issues) =>
      match second issues with
      | none => none
      | some (ok, issues) => some (ok && valid, issues)

def each {α : Type} (items : List α) (step : α → Step) : Step :=
  match items with
  | [] => passed
  | item :: rest => both (step item) (each rest step)

/- Tried with a list of its own. -/
def attempt (step : Step) : Option (Bool × List Issue) := step []

def typeOfJsonValue (rt : Runtime) : Subject → JsString
  | none => js "function"
  | some .null => js "null"
  | some (.arr _) => js "array"
  | some (.num text) => if rt.isInteger text then js "integer" else js "number"
  | some (.str _) => js "string"
  | some (.bool _) => js "boolean"
  | some (.obj _) => js "object"

/- A bound that is a number is kept unless the length is past it. -/
def bounded (schema : Fields) (keyword before after : JsString) (past : JsString → Bool) (path : Path) : Step :=
  match numberOf? schema keyword with
  | some bound => expect (!past bound) path (before ++ bound ++ after) keyword
  | none => passed

section keywords
variable (rt : Runtime) (check : Checker)

def required (schema value : Fields) (path : Path) : Step :=
  match getField schema (js "required") with
  | some (.arr items) =>
      if isRequiredSet items then
        each (items.filterMap stringOf?) fun key => expect (inObject value key) (path ++ [.name key]) (js "is required") (js "required")
      else passed
  | _ => passed

def properties (schema value : Fields) (path : Path) : Step :=
  each (objectOf schema (js "properties")) fun (key, property) =>
    match getField value key with
    | some item => check property (some item) (path ++ [.name key])
    | none => if inObject value key then check property none (path ++ [.name key]) else passed

def propertyNames (schema value : Fields) (path : Path) : Step :=
  match getField schema (js "propertyNames") with
  | some names => each value fun (key, _) => check names (some (.str key)) (path ++ [.name key])
  | none => passed

def patternProperties (schema value : Fields) (path : Path) : Step :=
  each (objectOf schema (js "patternProperties")) fun (pattern, property) =>
    match rt.regex pattern with
    | some test => each value fun (key, item) => if test key then check property (some item) (path ++ [.name key]) else passed
    | none => failed path (js "invalid patternProperties regex " ++ pattern) (js "patternProperties")

def dependentRequired (schema value : Fields) (path : Path) : Step :=
  each (objectOf schema (js "dependentRequired")) fun (key, deps) =>
    match deps with
    | .arr deps =>
        if inObject value key then
          each (deps.filterMap stringOf?) fun dep =>
            expect (inObject value dep) (path ++ [.name dep]) (js "is required when \"" ++ key ++ js "\" is present") (js "dependentRequired")
        else passed
    | _ => passed

def dependentSchemas (schema value : Fields) (path : Path) : Step :=
  each (objectOf schema (js "dependentSchemas")) fun (key, dependent) =>
    if inObject value key then check dependent (some (.obj value)) path else passed

def additionalProperties (schema value : Fields) (path : Path) : Step :=
  match getField schema (js "additionalProperties") with
  | some (.bool true) => passed
  | some (.bool false) =>
      each value fun (key, _) => expect (isKnown rt schema key) (path ++ [.name key]) (js "must not be present") (js "additionalProperties")
  | some additional =>
      each value fun (key, item) => if isKnown rt schema key then passed else check additional (some item) (path ++ [.name key])
  | none => passed

def validateObjectKeywords (schema value : Fields) (path : Path) : Step :=
  both (both (both (both (both (both (both (both
    (required schema value path)
    (properties check schema value path))
    (propertyNames check schema value path))
    (patternProperties rt check schema value path))
    (dependentRequired schema value path))
    (dependentSchemas check schema value path))
    (additionalProperties rt check schema value path))
    (bounded schema (js "minProperties") (js "must have at least ") (js " properties") (rt.less (decimal value.length)) path))
    (bounded schema (js "maxProperties") (js "must have at most ") (js " properties") (fun bound => rt.less bound (decimal value.length)) path)

/- Each item against the later ones. -/
def unique (path : Path) : List (Json × Nat) → Step
  | [] => passed
  | (item, _) :: rest =>
      both (each rest fun (later, j) => expect (!areJsonValuesEqual item later) (path ++ [.index j]) (js "must be unique") (js "uniqueItems"))
        (unique path rest)

def items (schema : Fields) (value : List Json) (path : Path) : Step :=
  match getField schema (js "items") with
  | some (.arr _) =>
      failed path (js "array-valued items is not valid in JSON Schema 2020-12; use prefixItems") (js "items")
  | rest =>
      let front := (arrayOf? schema (js "prefixItems")).getD []
      both (each (front.zip value.zipIdx) fun (entry, item, i) => check entry (some item) (path ++ [.index i]))
        (match rest with
          | some rest => each (value.zipIdx.drop front.length) fun (item, i) => check rest (some item) (path ++ [.index i])
          | none => passed)

/- How many items match, each tried with a list of its own. -/
def containsCount (contained : Json) (path : Path) : List (Json × Nat) → Option Nat
  | [] => some 0
  | (item, i) :: rest =>
      match attempt (check contained (some item) (path ++ [.index i])) with
      | none => none
      | some (ok, _) => (containsCount contained path rest).map fun count => if ok then count + 1 else count

def contains (schema : Fields) (value : List Json) (path : Path) : Step :=
  match getField schema (js "contains") with
  | some contained => fun issues =>
      match containsCount check contained path value.zipIdx with
      | none => none
      | some count =>
          let minContains := (numberOf? schema (js "minContains")).getD (decimal 1)
          both
            (expect (!rt.less (decimal count) minContains) path (js "must contain at least " ++ minContains ++ js " matching item(s)")
              (js "contains"))
            (bounded schema (js "maxContains") (js "must contain at most ") (js " matching item(s)")
              (fun bound => rt.less bound (decimal count)) path) issues
  | none => passed

def validateArrayKeywords (schema : Fields) (value : List Json) (path : Path) : Step :=
  both (both (both (both
    (bounded schema (js "minItems") (js "must have at least ") (js " items") (rt.less (decimal value.length)) path)
    (bounded schema (js "maxItems") (js "must have at most ") (js " items") (fun bound => rt.less bound (decimal value.length)) path))
    (if isTrue? schema (js "uniqueItems") then unique path value.zipIdx else passed))
    (items check schema value path))
    (contains rt check schema value path)

def validateStringKeywords (schema : Fields) (value : JsString) (path : Path) : Step :=
  both (both
    (bounded schema (js "minLength") (js "must be at least ") (js " characters") (rt.less (decimal value.length)) path)
    (bounded schema (js "maxLength") (js "must be at most ") (js " characters") (fun bound => rt.less bound (decimal value.length)) path))
    (match getField schema (js "pattern") with
      | some (.str pattern) =>
          match rt.regex pattern with
          | some test => expect (test value) path (js "must match pattern") (js "pattern")
          | none => failed path (js "schema pattern is invalid") (js "pattern")
      | _ => passed)

/- The boolean form of an exclusive bound. -/
def exclusive (schema : Fields) (keyword inclusive before : JsString) (past : JsString → Bool) (path : Path) : Step :=
  match numberOf? schema inclusive with
  | some bound => expect (!(isTrue? schema keyword && past bound)) path (before ++ bound) keyword
  | none => passed

def validateNumberKeywords (schema : Fields) (value : JsString) (path : Path) : Step :=
  both (both (both (both (both (both
    (bounded schema (js "minimum") (js "must be >= ") [] (rt.less value) path)
    (bounded schema (js "maximum") (js "must be <= ") [] (fun bound => rt.less bound value) path))
    (bounded schema (js "exclusiveMinimum") (js "must be > ") [] (atMost rt value) path))
    (bounded schema (js "exclusiveMaximum") (js "must be < ") [] (fun bound => atMost rt bound value) path))
    (exclusive schema (js "exclusiveMinimum") (js "minimum") (js "must be > ") (atMost rt value) path))
    (exclusive schema (js "exclusiveMaximum") (js "maximum") (js "must be < ") (fun bound => atMost rt bound value) path))
    (bounded schema (js "multipleOf") (js "must be a multiple of ") []
      (fun divisor => rt.less (decimal 0) divisor && !rt.isMultiple value divisor) path)

/- How many branches match, and the issues of the first one that does not. -/
def tally (value : Subject) (path : Path) : List Json → Option (Nat × Option (List Issue))
  | [] => some (0, none)
  | branch :: rest =>
      match attempt (check branch value path) with
      | none => none
      | some (ok, own) => (tally value path rest).map fun (matching, firstIssues) =>
          if ok then (matching + 1, firstIssues) else (matching, some own)

def union (schema : Fields) (keyword message : JsString) (accepts : Nat → Bool) (value : Subject) (path : Path) : Step :=
  match arrayOf? schema keyword with
  | some branches => fun issues =>
      match tally check value path branches with
      | none => none
      | some (matching, firstIssues) =>
          if accepts matching then some (true, issues)
          else
            match firstIssues with
            | some (issue :: more) =>
                if matching = 0 then some (false, issues ++ issue :: more) else failed path message keyword issues
            | _ => failed path message keyword issues
  | none => passed

def allOf (schema : Fields) (value : Subject) (path : Path) : Step :=
  match arrayOf? schema (js "allOf") with
  | some branches => each branches fun branch => check branch value path
  | none => passed

def excluded (schema : Fields) (value : Subject) (path : Path) : Step :=
  match getField schema (js "not") with
  | some excluded => fun issues =>
      match attempt (check excluded value path) with
      | none => none
      | some (ok, _) => expect (!ok) path (js "must not match excluded schema") (js "not") issues
  | none => passed

def condition (schema : Fields) (value : Subject) (path : Path) : Step :=
  match getField schema (js "if") with
  | some condition => fun issues =>
      match attempt (check condition value path) with
      | none => none
      | some (ok, _) =>
          match getField schema (if ok then js "then" else js "else") with
          | some branch => check branch value path issues
          | none => some (true, issues)
  | none => passed

def kindKeywords (schema : Fields) (value : Subject) (path : Path) : Step :=
  match value with
  | some (.obj fields) => validateObjectKeywords rt check schema fields path
  | some (.arr items) => validateArrayKeywords rt check schema items path
  | some (.str text) => validateStringKeywords rt schema text path
  | some (.num text) => validateNumberKeywords rt schema text path
  | _ => passed

/- The keywords of a node without `$ref`. A wrong type ends the check. -/
def validateKeywords (schema : Fields) (value : Subject) (path : Path) : Step :=
  if value = some .null ∧ isTrue? schema (js "nullable") = true then passed
  else if typeOk rt schema value then
    both (both (both (both (both (both (both
      (expect (constOk schema value) path (js "must equal const value") (js "const"))
      (expect (enumOk schema value) path (js "must be one of the allowed enum values") (js "enum")))
      (union check schema (js "anyOf") (js "must match at least one schema") (fun matching => 0 < matching) value path))
      (union check schema (js "oneOf") (js "must match exactly one schema") (fun matching => matching == 1) value path))
      (allOf check schema value path))
      (excluded check schema value path))
      (condition check schema value path))
      (kindKeywords rt check schema value path)
  else fun issues =>
    some (false, issues ++ [⟨path,js "expected " ++ (js " or ").intercalate (schemaTypes schema) ++ js ", received " ++
      typeOfJsonValue rt value,js "type",some (schemaTypes schema)⟩])

end keywords

def validateSchemaNode (rt : Runtime) : Nat → ValidationContext → Checker
  | 0, _, _, _, _ => fun _ => none
  | _ + 1, _, .bool true, _, _ => passed
  | _ + 1, _, .bool false, _, path => failed path (js "must not match false schema") (js "false")
  | fuel + 1, ctx, .obj schema, value, path =>
      match getField schema (js "$ref") with
      | some (.str ref) =>
          match resolveLocalRef ctx.root ref with
          | none => failed path (js "unresolved reference " ++ ref) (js "$ref")
          | some resolved =>
              if value.any hasIdentity then
                if (ref, path) ∈ ctx.seenPairs then passed
                else
                  validateSchemaNode rt fuel { ctx with seenPairs := (ref, path) :: ctx.seenPairs } resolved value path
              else if maxRefDepth ≤ ctx.refDepth then failed path (js "reference depth exceeded") (js "$ref")
              else validateSchemaNode rt fuel { ctx with refDepth := ctx.refDepth + 1 } resolved value path
      | _ => validateKeywords rt (validateSchemaNode rt fuel ctx) schema value path
  | _ + 1, _, _, _, path => failed path (js "schema must be an object or boolean") (js "schema")

structure ValidationResult where
  success : Bool
  issues : List Issue
  deriving DecidableEq

def validateJsonSchemaValue (rt : Runtime) (fuel : Nat) (schema value : Json) : Option ValidationResult :=
  (validateSchemaNode rt fuel ⟨schema,[],0⟩ schema (some value) [] []).map fun (success, issues) => ⟨success,issues⟩

end JsonSchemaIssues
