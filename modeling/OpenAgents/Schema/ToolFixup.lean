import OpenAgents.Schema.ArgumentsKept

/- What is done to the arguments of a tool call before anything validates them: a value whose type is not
   among those the schema of its property names is rewritten to one that is. Of what every object inherits
   nothing changes, and tools and properties of an inherited name are left out. -/
namespace ToolFixup
open JsText JsJson JsObject JsonSchema ToolArguments ArgumentsKept

mutual

/- `String(value)`. -/
def stringValue : Json → JsString
  | .null => js "null"
  | .bool true => js "true"
  | .bool false => js "false"
  | .num text => text
  | .str text => text
  | .arr items => joinItems items
  | .obj _ => js "[object Object]"

def joinItems : List Json → JsString
  | [] => []
  | [item] => itemValue item
  | item :: rest => itemValue item ++ js "," ++ joinItems rest

def itemValue : Json → JsString
  | .null => []
  | item => stringValue item

end

def toolArrayDefault (toolName key : JsString) : Option (List Json) :=
  if (toolName = js "find" ∨ toolName = js "search") ∧ key = js "paths" then some [.str (js ".")] else none

def joinArrayAsString (toolName key : JsString) (items : List Json) : Option JsString :=
  if toolName = js "bash" ∧ key = js "command" then some ((js " && ").intercalate (items.map stringValue)) else none

def addTypes (schema : Fields) : List JsString :=
  match getField schema (js "type") with
  | some (.str type) => [type]
  | some (.arr entries) => entries.filterMap stringOf?
  | _ => []

/- `levels` is one more than the depth that may still be entered, and the list stands for the set. -/
def collectTypes : Nat → Json → List JsString
  | levels + 1, .obj schema =>
      let branches := [js "anyOf", js "oneOf", js "allOf"].flatMap fun keyword => (arrayOf? schema keyword).getD []
      let types := addTypes schema ++ branches.flatMap (collectTypes levels)
      if types = [] ∧ (getField schema (js "items")).isSome then [js "array"] else types
  | _, _ => []

def collectExpectedTypes (schema : Json) : List JsString := collectTypes 9 schema

def expectsArray (types : List JsString) : Prop := js "array" ∈ types
def expectsString (types : List JsString) : Prop := js "string" ∈ types
def expectsNumber (types : List JsString) : Prop := js "number" ∈ types ∨ js "integer" ∈ types

instance (types : List JsString) : Decidable (expectsArray types) := inferInstanceAs (Decidable (_ ∈ _))
instance (types : List JsString) : Decidable (expectsString types) := inferInstanceAs (Decidable (_ ∈ _))
instance (types : List JsString) : Decidable (expectsNumber types) := inferInstanceAs (Decidable (_ ∨ _))

def tryParseNumericString (rt : ArgumentRuntime) (value : JsString) (types : List JsString) : Option JsString :=
  if ¬ expectsNumber types then none
  else if (trim value).isEmpty || !isNumericString (trim value) then none
  else rt.toNumber (trim value)

abbrev Corrections := List JsString

section
variable (rt : ArgumentRuntime) (fixObject : Fields → Fields → Fields × Corrections) (toolName : JsString)

def fixMissing (key : JsString) (expected required : List JsString) : Option Json × Corrections :=
  if ¬ expectsArray expected then (none, [])
  else if key ∉ required then (none, [])
  else
    match toolArrayDefault toolName key with
    | some override => (some (.arr override), [key ++ js ": missing → default " ++ stringify (.arr override)])
    | none => (some (.arr []), [key ++ js ": missing → empty array"])

def fixString (key text : JsString) (expected : List JsString) : Json × Corrections :=
  if expectsArray expected ∧ ¬ expectsString expected then
    (.arr [.str text], [key ++ js ": string → wrapped in array"])
  else
    match tryParseNumericString rt text expected with
    | some parsed =>
        if expectsNumber expected ∧ ¬ expectsString expected then (.num parsed, [key ++ js ": numeric string → number"])
        else (.str text, [])
    | none => (.str text, [])

def fixScalar (key : JsString) (value : Json) (kind : JsString) (expected : List JsString) : Json × Corrections :=
  if expectsString expected ∧ ¬ expectsNumber expected then
    (.str (stringValue value), [key ++ js ": " ++ kind ++ js " → string"])
  else (value, [])

def fixArray (key : JsString) (items : List Json) (expected : List JsString) : Json × Corrections :=
  if ¬ expectsString expected ∨ expectsArray expected then (.arr items, [])
  else
    match joinArrayAsString toolName key items with
    | some joined => (.str joined, [key ++ js ": array → joined command string"])
    | none =>
        match items with
        | first :: _ => (first, [key ++ js ": array → first element"])
        | [] => (.arr items, [])

def fixPropertyValue (key : JsString) (value : Option Json) (propertySchema : Json) (required : List JsString) :
    Option Json × Corrections :=
  let expected := collectExpectedTypes propertySchema
  if expected = [] then (value, [])
  else
    match value with
    | none => fixMissing toolName key expected required
    | some (.str text) => (fixString rt key text expected).map some id
    | some (.num text) => (fixScalar key (.num text) (js "number") expected).map some id
    | some (.bool flag) => (fixScalar key (.bool flag) (js "boolean") expected).map some id
    | some (.arr items) => (fixArray toolName key items expected).map some id
    | some (.obj fields) =>
        match propertySchema with
        | .obj schema => (fixObject schema fields).map (fun fixed => some (.obj fixed)) id
        | _ => (some (.obj fields), [])
    | some .null => (some .null, [])

def fixProperty (required : List JsString) (state : Fields × Corrections) (property : JsString × Json) :
    Fields × Corrections :=
  match getField state.1 property.1 with
  | none =>
      if inheritedNames.contains property.1 then state
      else
        match fixPropertyValue rt fixObject toolName property.1 none property.2 required with
        | (some fixed, more) => (assignField state.1 property.1 fixed, state.2 ++ more)
        | (none, more) => (state.1, state.2 ++ more)
  | some current =>
      match fixPropertyValue rt fixObject toolName property.1 (some current) property.2 required with
      | (some fixed, more) =>
          (if fixed = current then state.1 else assignField state.1 property.1 fixed, state.2 ++ more)
      | (none, more) => (state.1, state.2 ++ more)

end

/- The properties of an object, those of the objects in it by as much fuel as the schema is deep. -/
def fixFuel (rt : ArgumentRuntime) (toolName : JsString) : Nat → Fields → Fields → Fields × Corrections
  | 0, _, args => (args, [])
  | fuel + 1, schema, args =>
      match getField schema (js "properties") with
      | some (.obj properties) =>
          properties.foldl (fixProperty rt (fixFuel rt toolName fuel) toolName (requiredNames schema)) (args, [])
      | _ => (args, [])

def fixObjectProperties (rt : ArgumentRuntime) (toolName : JsString) (schema args : Fields) : Fields × Corrections :=
  fixFuel rt toolName (depth (.obj schema)) schema args

def fixupToolArgs (rt : ArgumentRuntime) (toolName : JsString) (wire : Fields) (args : Json) : Json × Corrections :=
  match args with
  | .obj fields =>
      if getField wire (js "type") ≠ some (.str (js "object")) then (args, [])
      else (fixObjectProperties rt toolName wire fields).map .obj id
  | _ => (args, [])

/- The properties that are looked at, each with what the arguments have in its place. -/
inductive Reaches : Fields → Fields → List JsString → JsString × Json → Option Json → Prop
  | own {schema args properties : Fields} {property : JsString × Json}
      (found : getField schema (js "properties") = some (.obj properties)) (member : property ∈ properties) :
      Reaches schema args (requiredNames schema) property (getField args property.1)
  | nested {schema args properties inner fields : Fields} {key : JsString} {required : List JsString}
      {property : JsString × Json} {value : Option Json}
      (found : getField schema (js "properties") = some (.obj properties)) (member : (key, .obj inner) ∈ properties)
      (typed : collectExpectedTypes (.obj inner) ≠ []) (object : getField args key = some (.obj fields))
      (reached : Reaches inner fields required property value) : Reaches schema args required property value

/- The collected types lack that of the value and have one it is rewritten to. -/
def Rewritten (rt : ArgumentRuntime) (toolName : JsString) (required : List JsString) (property : JsString × Json)
    (value : Option Json) : Prop :=
  let types := collectExpectedTypes property.2
  match value with
  | none => expectsArray types ∧ property.1 ∈ required ∧ property.1 ∉ inheritedNames
  | some (.str text) => ¬ expectsString types ∧ (expectsArray types ∨ (tryParseNumericString rt text types).isSome = true)
  | some (.num _) => expectsString types ∧ ¬ expectsNumber types
  | some (.bool _) => expectsString types ∧ ¬ expectsNumber types
  | some (.arr items) => expectsString types ∧ ¬ expectsArray types ∧
      (items ≠ [] ∨ (joinArrayAsString toolName property.1 items).isSome = true)
  | some (.obj _) => False
  | some .null => False

section
variable {rt : ArgumentRuntime} {toolName : JsString}

theorem fixMissing_quiet (key : JsString) (expected required : List JsString) :
    ((fixMissing toolName key expected required).2 = [] ↔ ¬ (expectsArray expected ∧ key ∈ required)) ∧
      ((fixMissing toolName key expected required).2 = [] → (fixMissing toolName key expected required).1 = none) := by
  unfold fixMissing
  split
  next without => simp [without]
  next array =>
    split
    next optional => simp [optional]
    next needed =>
      have both : expectsArray expected ∧ key ∈ required := ⟨not_not.mp array,not_not.mp needed⟩
      split <;> simp [both]

theorem parsed_number {text parsed : JsString} {expected : List JsString}
    (found : tryParseNumericString rt text expected = some parsed) : expectsNumber expected := by
  by_contra without
  simp [tryParseNumericString, without] at found

theorem fixString_quiet (key text : JsString) (expected : List JsString) :
    ((fixString rt key text expected).2 = [] ↔
        ¬ (¬ expectsString expected ∧ (expectsArray expected ∨ (tryParseNumericString rt text expected).isSome = true))) ∧
      ((fixString rt key text expected).2 = [] → (fixString rt key text expected).1 = .str text) := by
  unfold fixString
  split
  next wrapped => simp [wrapped]
  next kept =>
    split
    next parsed found =>
      have number := parsed_number found
      by_cases string : expectsString expected <;> simp [number, string, found]
    next none =>
      have onlyArray : ¬ (¬ expectsString expected ∧ expectsArray expected) := fun both => kept ⟨both.2,both.1⟩
      simpa [none] using onlyArray

theorem fixScalar_quiet (key : JsString) (value : Json) (kind : JsString) (expected : List JsString) :
    ((fixScalar key value kind expected).2 = [] ↔ ¬ (expectsString expected ∧ ¬ expectsNumber expected)) ∧
      ((fixScalar key value kind expected).2 = [] → (fixScalar key value kind expected).1 = value) := by
  unfold fixScalar
  split
  next rewritten => simp [rewritten]
  next kept => simp [kept]

theorem fixArray_quiet (key : JsString) (items : List Json) (expected : List JsString) :
    ((fixArray toolName key items expected).2 = [] ↔ ¬ (expectsString expected ∧ ¬ expectsArray expected ∧
        (items ≠ [] ∨ (joinArrayAsString toolName key items).isSome = true))) ∧
      ((fixArray toolName key items expected).2 = [] → (fixArray toolName key items expected).1 = .arr items) := by
  unfold fixArray
  split
  next kept =>
    have never : ¬ (expectsString expected ∧ ¬ expectsArray expected ∧
        (items ≠ [] ∨ (joinArrayAsString toolName key items).isSome = true)) := by
      rintro ⟨string,array,_⟩
      exact kept.elim (fun without => without string) array
    simp [never]
  next only =>
    have string : expectsString expected := by
      by_contra without
      exact only (.inl without)
    have array : ¬ expectsArray expected := fun both => only (.inr both)
    split
    next joined found => simp [string, array, found]
    next none => cases items <;> simp [string, array, none]

/-- A property value stays silently as it is when it is not rewritten and, where it is an object that is
    entered, nothing in it is. -/
theorem fixPropertyValue_quiet {fixObject : Fields → Fields → Fields × Corrections}
    (same : ∀ schema fields, (fixObject schema fields).2 = [] → (fixObject schema fields).1 = fields)
    (key : JsString) (value : Option Json) (propertySchema : Json) (required : List JsString)
    (own : value = none → key ∉ inheritedNames) :
    ((fixPropertyValue rt fixObject toolName key value propertySchema required).2 = [] ↔
      ¬ Rewritten rt toolName required (key, propertySchema) value ∧
        ∀ inner fields, propertySchema = .obj inner → value = some (.obj fields) →
          collectExpectedTypes propertySchema ≠ [] → (fixObject inner fields).2 = []) ∧
      ((fixPropertyValue rt fixObject toolName key value propertySchema required).2 = [] →
        (fixPropertyValue rt fixObject toolName key value propertySchema required).1 = value) := by
  unfold fixPropertyValue Rewritten
  simp only
  by_cases untyped : collectExpectedTypes propertySchema = []
  · rw [if_pos untyped, untyped]
    refine ⟨⟨fun _ => ⟨?_,fun _ _ _ _ typed => absurd rfl typed⟩,fun _ => rfl⟩,fun _ => rfl⟩
    split <;> simp [expectsArray, expectsString, tryParseNumericString, expectsNumber]
  · rw [if_neg untyped]
    cases value with
    | none =>
      have quiet := @fixMissing_quiet toolName key (collectExpectedTypes propertySchema) required
      simpa [own rfl] using quiet
    | some value =>
      cases value with
      | null => simp
      | str text =>
        have quiet := @fixString_quiet rt key text (collectExpectedTypes propertySchema)
        simpa using quiet
      | num text =>
        have quiet := fixScalar_quiet key (.num text) (js "number") (collectExpectedTypes propertySchema)
        simpa using quiet
      | bool flag =>
        have quiet := fixScalar_quiet key (.bool flag) (js "boolean") (collectExpectedTypes propertySchema)
        simpa using quiet
      | arr items =>
        have quiet := @fixArray_quiet toolName key items (collectExpectedTypes propertySchema)
        simpa using quiet
      | obj fields =>
        cases propertySchema with
        | obj schema =>
          have unchanged := same schema fields
          simpa [untyped] using unchanged
        | _ => simp

section
variable {fixObject : Fields → Fields → Fields × Corrections}

/- A property and, where it is an object that is entered, what is in it. -/
def Quiet (rt : ArgumentRuntime) (fixObject : Fields → Fields → Fields × Corrections) (toolName : JsString)
    (required : List JsString) (args : Fields) (property : JsString × Json) : Prop :=
  ¬ Rewritten rt toolName required property (getField args property.1) ∧
    ∀ inner fields, property.2 = .obj inner → getField args property.1 = some (.obj fields) →
      collectExpectedTypes property.2 ≠ [] → (fixObject inner fields).2 = []

theorem fixProperty_quiet (same : ∀ schema fields, (fixObject schema fields).2 = [] → (fixObject schema fields).1 = fields)
    (required : List JsString) (args : Fields) (before : Corrections) (property : JsString × Json) :
    ((fixProperty rt fixObject toolName required (args, before) property).2 = [] ↔
      before = [] ∧ Quiet rt fixObject toolName required args property) ∧
      ((fixProperty rt fixObject toolName required (args, before) property).2 = [] →
        (fixProperty rt fixObject toolName required (args, before) property).1 = args) := by
  obtain ⟨key,propertySchema⟩ := property
  unfold fixProperty Quiet
  simp only
  cases current : getField args key with
  | none =>
    by_cases inherited : key ∈ inheritedNames
    · simp [inherited, Rewritten]
    · have quiet := @fixPropertyValue_quiet rt toolName _ same key none propertySchema required
        (fun _ => inherited)
      rcases fixed : fixPropertyValue rt fixObject toolName key none propertySchema required with ⟨made,more⟩
      rw [fixed] at quiet
      have kept := quiet.2
      simp only [List.contains_iff_mem, inherited, if_false]
      cases made with
      | none => simpa using fun _ => quiet.1
      | some value =>
        have said : more ≠ [] := by simpa using kept
        simpa [said] using fun _ => quiet.1.not.mp said
  | some value =>
    have quiet := @fixPropertyValue_quiet rt toolName _ same key (some value) propertySchema required
      (by simp)
    rcases fixed : fixPropertyValue rt fixObject toolName key (some value) propertySchema required with ⟨made,more⟩
    rw [fixed] at quiet
    simp only [fixed]
    cases made with
    | none =>
      have said : more ≠ [] := by simpa using quiet.2
      simpa [said] using fun _ => quiet.1.not.mp said
    | some result =>
      by_cases silent : more = []
      · have unchanged : result = value := by simpa using quiet.2 silent
        simpa [silent, unchanged] using fun _ => quiet.1.mp silent
      · simpa [silent] using fun _ => quiet.1.not.mp silent

/-- Nothing is corrected when nothing is to be corrected in the arguments as they came. -/
theorem fixProperties_quiet (same : ∀ schema fields, (fixObject schema fields).2 = [] → (fixObject schema fields).1 = fields)
    (required : List JsString) (args : Fields) (properties : Fields) (before : Corrections) :
    ((properties.foldl (fixProperty rt fixObject toolName required) (args, before)).2 = [] ↔
      before = [] ∧ ∀ property ∈ properties, Quiet rt fixObject toolName required args property) ∧
      ((properties.foldl (fixProperty rt fixObject toolName required) (args, before)).2 = [] →
        (properties.foldl (fixProperty rt fixObject toolName required) (args, before)).1 = args) := by
  induction properties generalizing args before with
  | nil => simp
  | cons property rest ih =>
    have first := @fixProperty_quiet rt toolName _ same required args before property
    rcases next : fixProperty rt fixObject toolName required (args, before) property with ⟨args',before'⟩
    rw [next] at first
    have others := ih args' before'
    rw [List.foldl_cons, next]
    simp only [List.forall_mem_cons] at first ⊢
    by_cases silent : before' = []
    · have unchanged : args' = args := first.2 silent
      have quiet := first.1.mp silent
      rw [unchanged] at others ⊢
      simpa [silent, quiet] using others
    · have loud : ¬ (before = [] ∧ Quiet rt fixObject toolName required args property) := first.1.not.mp silent
      have left : (rest.foldl (fixProperty rt fixObject toolName required) (args', before')).2 ≠ [] :=
        fun none => silent (others.1.mp none).1
      refine ⟨⟨fun none => absurd none left,fun both => absurd ⟨both.1,both.2.1⟩ loud⟩,fun none => absurd none left⟩

theorem fixFuel_same (fuel : Nat) (schema args : Fields) (silent : (fixFuel rt toolName fuel schema args).2 = []) :
    (fixFuel rt toolName fuel schema args).1 = args := by
  induction fuel generalizing schema args with
  | zero => rfl
  | succ fuel ih =>
    unfold fixFuel at silent ⊢
    split at silent
    next properties _ => exact (fixProperties_quiet ih (requiredNames schema) args properties []).2 silent
    next _ => rfl

theorem depth_nested {schema properties inner : Fields} {key : JsString}
    (found : getField schema (js "properties") = some (.obj properties)) (member : (key, .obj inner) ∈ properties) :
    depth (.obj inner) < depth (.obj schema) := by
  have outer := depth_get found
  have within : depth (.obj inner) ≤ depthFields properties := depth_field member
  rw [depth] at outer
  omega

theorem fixFuel_quiet (fuel : Nat) (schema args : Fields) (enough : depth (.obj schema) ≤ fuel) :
    (fixFuel rt toolName fuel schema args).2 = [] ↔
      ∀ required property value, Reaches schema args required property value →
        ¬ Rewritten rt toolName required property value := by
  induction fuel generalizing schema args with
  | zero =>
    rw [depth] at enough
    omega
  | succ fuel ih =>
    unfold fixFuel
    split
    next properties found =>
      have quiet := (@fixProperties_quiet rt toolName _ (@fixFuel_same rt toolName fuel)
        (requiredNames schema) args properties []).1
      refine quiet.trans ⟨?_,?_⟩
      · rintro ⟨_,all⟩ required property value reached
        cases reached with
        | own found' member =>
          rw [found, Option.some.injEq, Json.obj.injEq] at found'
          exact (all property (found' ▸ member)).1
        | @nested _ _ _ inner fields key _ _ _ found' member typed object inside =>
          rw [found, Option.some.injEq, Json.obj.injEq] at found'
          rw [← found'] at member
          have smaller := depth_nested found member
          exact (ih inner fields (by omega)).mp ((all _ member).2 inner fields rfl object typed) _ _ _ inside
      · intro untouched
        refine ⟨rfl,fun property member => ⟨untouched _ _ _ (.own found member),?_⟩⟩
        intro inner fields schema' object typed
        obtain ⟨key,propertySchema⟩ := property
        simp only at schema' object typed
        subst schema'
        have smaller := depth_nested found member
        refine (ih inner fields (by omega)).mpr fun required property value inside => ?_
        exact untouched _ _ _ (.nested found member typed object inside)
    next without =>
      refine ⟨fun _ required property value reached => ?_,fun _ => rfl⟩
      cases reached with
      | own found _ => exact absurd found (without _)
      | nested found _ _ _ _ => exact absurd found (without _)

end

/- Nothing that is looked at is rewritten. -/
def Untouched (rt : ArgumentRuntime) (toolName : JsString) (wire : Fields) (args : Json) : Prop :=
  ∀ fields, args = .obj fields → getField wire (js "type") = some (.str (js "object")) →
    ∀ required property value, Reaches wire fields required property value → ¬ Rewritten rt toolName required property value

theorem fixup_iff (rt : ArgumentRuntime) (toolName : JsString) (wire : Fields) (args : Json) :
    fixupToolArgs rt toolName wire args = (args, []) ↔ Untouched rt toolName wire args := by
  unfold fixupToolArgs Untouched
  split
  next fields =>
    split
    next other =>
      refine ⟨fun _ fields' _ object => absurd object other,fun _ => rfl⟩
    next object =>
      have quiet := @fixFuel_quiet rt toolName _ wire fields (le_refl _)
      constructor
      · intro unchanged fields' sameArgs _
        cases sameArgs
        exact quiet.mp (congrArg Prod.snd unchanged)
      · intro untouched
        have silent := quiet.mpr (untouched fields rfl (not_not.mp object))
        exact Prod.ext (congrArg Json.obj (fixFuel_same _ wire fields silent)) silent
  next other => exact ⟨fun _ fields same => absurd same (other fields),fun _ => rfl⟩

end

def modeSchema : Fields := [(js "type", .str (js "object")), (js "properties", .obj [(js "mode", .obj [(js "anyOf",
  .arr [.obj [(js "type", .str (js "array"))], .obj [(js "enum", .arr [.str (js "all")])]])])])]

def modeAll : Json := .obj [(js "mode", .str (js "all"))]

/-- The second branch accepts the string, but only the type of the first one is collected. -/
theorem enum_wrapped : isJsonSchemaValueValid naturalRuntime (.obj modeSchema) modeAll = true ∧
    fixupToolArgs naturalArguments (js "grep") modeSchema modeAll =
      (.obj [(js "mode", .arr [.str (js "all")])], [js "mode: string → wrapped in array"]) ∧
    fixupToolArgs naturalArguments (js "grep") modeSchema modeAll ≠ (modeAll, []) := by
  decide +kernel

end ToolFixup
