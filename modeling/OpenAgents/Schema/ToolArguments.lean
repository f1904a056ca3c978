import OpenAgents.Schema.Draft

/- What is done to the arguments of a tool call before they are validated: nulls of optional
   properties are dropped, defaults stand in for required ones, and strings that read as numbers
   become numbers where a node of the schema asks for one. -/
namespace ToolArguments
open JsText JsJson JsObject JsonSchema

/- `toNumber` is `Number(text)` as the canonical text of a number, and `none` when it is not finite. -/
structure ArgumentRuntime extends JsonSchema.Runtime where
  toNumber : JsString → Option JsString

def isSign (c : CodeUnit) : Bool := c == 43 || c == 45
def isExponent (c : CodeUnit) : Bool := c == 101 || c == 69
def point : CodeUnit := 46

def dropSign : JsString → JsString
  | c :: rest => if isSign c then rest else c :: rest
  | [] => []

/- Behind the digits of the number. -/
def exponentRest : JsString → Bool
  | [] => true
  | c :: rest => isExponent c && !(dropSign rest).isEmpty && (dropSign rest).all isDigit

def fractionRest : JsString → Bool
  | [] => true
  | c :: rest =>
      if c == point then !(rest.takeWhile isDigit).isEmpty && exponentRest (rest.dropWhile isDigit)
      else exponentRest (c :: rest)

/- `^[+-]?\d+(?:\.\d+)?(?:[eE][+-]?\d+)?$` -/
def isNumericString (text : JsString) : Bool :=
  !((dropSign text).takeWhile isDigit).isEmpty && fractionRest ((dropSign text).dropWhile isDigit)

/- For one expected type, `number` or `integer`. -/
def tryParseNumberString (rt : ArgumentRuntime) (value expectedType : JsString) : Option Json :=
  let trimmed := trim value
  if trimmed.isEmpty || !isNumericString trimmed then none
  else
    match rt.toNumber trimmed with
    | none => none
    | some parsed => if matchesJsonSchemaType rt.toRuntime (.num parsed) expectedType then some (.num parsed) else none

def isNullish (value : Json) : Bool := value == .null || value == .str (js "null")

def setField : Fields → JsString → Json → Fields
  | [], _, _ => []
  | (own, old) :: rest, key, value => if own = key then (own, value) :: rest else (own, old) :: setField rest key value

def deleteField (fields : Fields) (key : JsString) : Fields := fields.filter fun field => field.1 ≠ key

/- `Object.entries` of a value that may be an array. -/
def entriesOf : Json → Fields
  | .obj fields => fields
  | .arr items => items.zipIdx.map fun item => (decimal item.2, item.1)
  | _ => []

def requiredNames (schema : Fields) : List JsString :=
  match getField schema (js "required") with
  | some (.arr names) => names.filterMap stringOf?
  | _ => []

/- A changed value; `none` when nothing changes. -/
abbrev Normalizer := Json → Json → Bool → Option Json

section normalize
variable (rt : ArgumentRuntime) (normalize : Normalizer)

/- The first branch whose changed value it accepts, or else the first that changes the value. -/
def normalizeAnyOfLike (value : Json) (isRoot : Bool) : List Json → Option Json → Option Json
  | [], changedCandidate => changedCandidate
  | branch :: rest, changedCandidate =>
      match normalize branch value isRoot with
      | none => normalizeAnyOfLike value isRoot rest changedCandidate
      | some next =>
          if isJsonSchemaValueValid rt.toRuntime branch next then some next
          else normalizeAnyOfLike value isRoot rest (changedCandidate.or (some next))

/- One branch after the other. -/
def normalizeAllOf (isRoot : Bool) : List Json → Json → Option Json
  | [], _ => none
  | branch :: rest, value =>
      match normalize branch value isRoot with
      | none => normalizeAllOf isRoot rest value
      | some next => some ((normalizeAllOf isRoot rest next).getD next)

def normalizeItems (itemSchema : Json) : List Json → Option (List Json)
  | [] => none
  | item :: rest =>
      match normalize itemSchema item false, normalizeItems itemSchema rest with
      | none, none => none
      | first, others => some (first.getD item :: others.getD rest)

/-- The properties in the order of the schema; the value so far, and whether it has changed. Of what every
    object inherits nothing changes. -/
def normalizeProperty (required : List JsString) (state : Fields × Bool) (property : JsString × Json) : Fields × Bool :=
  match getField state.1 property.1 with
  | none => state
  | some currentValue =>
      if isNullish currentValue && !required.contains property.1 then (deleteField state.1 property.1, true)
      else
        match (if isNullish currentValue then property.2.field? (js "default") else none) with
        | some fallback => (setField state.1 property.1 fallback, true)
        | none =>
            match normalize property.2 currentValue false with
            | none => state
            | some next => (setField state.1 property.1 next, true)

def stripUnknown (known : List JsString) (state : Fields × Bool) : Fields × Bool :=
  let kept := state.1.filter fun field => known.contains field.1 || !isNullish field.2
  (kept, state.2 || kept.length != state.1.length)

def normalizeObject (schema value : Fields) (isRoot : Bool) : Option Json :=
  match getField schema (js "properties") with
  | some (.obj properties) => finish properties
  | some (.arr items) => finish (entriesOf (.arr items))
  | _ => none
where
  finish (properties : Fields) : Option Json :=
    let normalized := properties.foldl (normalizeProperty normalize (requiredNames schema)) (value, false)
    let stripped := if !isRoot && getField schema (js "additionalProperties") == some (.bool false) then
        stripUnknown (properties.map Prod.fst) normalized
      else normalized
    if stripped.2 then some (.obj stripped.1) else none

/- By the kind of the value: the items of an array, a numeric string, the properties of an object. -/
def normalizeKind (schema : Fields) (value : Json) (isRoot : Bool) : Option Json :=
  match value with
  | .arr items =>
      match getField schema (js "items") with
      | some (.obj itemSchema) => (normalizeItems normalize (.obj itemSchema) items).map .arr
      | _ => none
  | .str text =>
      if getField schema (js "type") = some (.str (js "number")) then tryParseNumberString rt text (js "number")
      else if getField schema (js "type") = some (.str (js "integer")) then tryParseNumberString rt text (js "integer")
      else none
  | .obj fields => if getField schema (js "type") = some (.str (js "object")) then normalizeObject normalize schema fields isRoot else none
  | _ => none

def normalizeNode (schema : Fields) (value : Json) (isRoot : Bool) : Option Json :=
  match normalizeAnyOfLike rt normalize value isRoot ((arrayOf? schema (js "anyOf")).getD []) none with
  | some next => some next
  | none =>
      match normalizeAnyOfLike rt normalize value isRoot ((arrayOf? schema (js "oneOf")).getD []) none with
      | some next => some next
      | none =>
          match normalizeAllOf normalize isRoot ((arrayOf? schema (js "allOf")).getD []) value with
          | some next => some next
          | none => normalizeKind rt normalize schema value isRoot

end normalize

/- The fuel is spent by one at each node of the schema. -/
def normalizeFuel (rt : ArgumentRuntime) : Nat → Normalizer
  | 0, _, _, _ => none
  | fuel + 1, .obj schema, value, isRoot =>
      if value = .null then none else normalizeNode rt (normalizeFuel rt fuel) schema value isRoot
  | _ + 1, _, _, _ => none

def normalizeOptionalNullsForSchema (rt : ArgumentRuntime) (schema value : Json) (isRoot : Bool) : Option Json :=
  normalizeFuel rt (depth schema + 1) schema value isRoot

/- `repair` stands for the passes over the issues of arguments that do not validate, up to their error. -/
def validateToolArguments (rt : ArgumentRuntime) (repair : Json → Json → Except JsString Json) (parameters originalArgs : Json) :
    Except JsString Json :=
  let json := upgradeJsonSchemaTo202012 parameters
  let normalizedArgs := (normalizeOptionalNullsForSchema rt json originalArgs true).getD originalArgs
  if isJsonSchemaValueValid rt.toRuntime json normalizedArgs then .ok normalizedArgs else repair originalArgs normalizedArgs

end ToolArguments
