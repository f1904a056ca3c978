import OpenAgents.Schema.ResponsesSound
import OpenAgents.Schema.ToolArguments

/- Which valid arguments without nulls come back as they are: those in which no string that reads as a
   number is reached at a node of the schema that asks for one. -/
namespace ArgumentsKept
open JsText JsJson JsObject JsonSchema ToolArguments

mutual

/- No null and no string `null` anywhere. -/
def nullFree : Json → Bool
  | .null => false
  | .str text => text != js "null"
  | .arr items => nullFreeItems items
  | .obj fields => nullFreeFields fields
  | _ => true

def nullFreeItems : List Json → Bool
  | [] => true
  | item :: rest => nullFree item && nullFreeItems rest

def nullFreeFields : Fields → Bool
  | [] => true
  | (_, value) :: rest => nullFree value && nullFreeFields rest

end

mutual

def strings : Json → Nat
  | .str _ => 1
  | .arr items => stringsItems items
  | .obj fields => stringsFields fields
  | _ => 0

def stringsItems : List Json → Nat
  | [] => 0
  | item :: rest => strings item + stringsItems rest

def stringsFields : Fields → Nat
  | [] => 0
  | (_, value) :: rest => strings value + stringsFields rest

end

def propertiesOf (schema : Fields) : Fields :=
  match getField schema (js "properties") with
  | some (.obj properties) => properties
  | some (.arr items) => entriesOf (.arr items)
  | _ => []

section coercible
variable (rt : ArgumentRuntime) (fires : Json → Json → Bool)

/- By the kind of the value: an item, the string itself, or a property beside the type `object`. -/
def coercibleKind (schema : Fields) : Json → Bool
  | .arr items =>
      match getField schema (js "items") with
      | some (.obj itemSchema) => items.any fun item => fires (.obj itemSchema) item
      | _ => false
  | .str text => [js "number", js "integer"].any fun type =>
      getField schema (js "type") == some (.str type) && (tryParseNumberString rt text type).isSome
  | .obj fields => getField schema (js "type") == some (.str (js "object")) &&
      (propertiesOf schema).any fun property => (getField fields property.1).any fun own => fires property.2 own
  | _ => false

def coercibleBranch (schema : Fields) (keyword : JsString) (value : Json) : Bool :=
  ((arrayOf? schema keyword).getD []).any fun branch => fires branch value

end coercible

/-- A string reads as the number that a node of the schema asks for; the nodes reached are those of
    `anyOf`, `oneOf`, `allOf`, `items`, and `properties` beside the type `object`. -/
def coercibleFuel (rt : ArgumentRuntime) : Nat → Json → Json → Bool
  | 0, _, _ => false
  | fuel + 1, .obj schema, value =>
      coercibleBranch (coercibleFuel rt fuel) schema (js "anyOf") value ||
        coercibleBranch (coercibleFuel rt fuel) schema (js "oneOf") value ||
        coercibleBranch (coercibleFuel rt fuel) schema (js "allOf") value || coercibleKind rt (coercibleFuel rt fuel) schema value
  | _ + 1, _, _ => false

def coercible (rt : ArgumentRuntime) (schema value : Json) : Bool := coercibleFuel rt (depth schema + 1) schema value

theorem nullFree_notNullish {value : Json} (free : nullFree value = true) : isNullish value = false ∧ value ≠ .null := by
  cases value with
  | null => contradiction
  | str text =>
    rw [nullFree, bne_iff_ne] at free
    simp [isNullish, free]
  | bool value => simp [isNullish]
  | num text => simp [isNullish]
  | arr items => simp [isNullish]
  | obj fields => simp [isNullish]

theorem nullFree_get {fields : Fields} (free : nullFreeFields fields = true) {key : JsString} {value : Json}
    (found : getField fields key = some value) : nullFree value = true := by
  induction fields with
  | nil => contradiction
  | cons field rest ih =>
    rw [nullFreeFields, Bool.and_eq_true] at free
    by_cases same : field.1 = key
    · have here : value = field.2 := by simpa [getField, same] using found.symm
      rw [here]
      exact free.1
    · apply ih free.2
      simpa [getField, same] using found

section set
variable {fields : Fields} {key : JsString} {value next : Json}

theorem setField_strings (found : getField fields key = some value) :
    stringsFields (setField fields key next) + strings value = stringsFields fields + strings next := by
  induction fields with
  | nil => contradiction
  | cons field rest ih =>
    obtain ⟨own,old⟩ := field
    by_cases same : own = key
    · have here : value = old := by simpa [getField, same] using found.symm
      rw [setField, if_pos same, stringsFields, stringsFields, here]
      omega
    · have later := ih (by simpa [getField, same] using found)
      rw [setField, if_neg same, stringsFields, stringsFields]
      omega

theorem setField_free (free : nullFreeFields fields = true) (clean : nullFree next = true) :
    nullFreeFields (setField fields key next) = true := by
  induction fields with
  | nil => rfl
  | cons field rest ih =>
    obtain ⟨own,old⟩ := field
    rw [nullFreeFields, Bool.and_eq_true] at free
    rw [setField]
    split
    · rw [nullFreeFields, clean, free.2]
      rfl
    · rw [nullFreeFields, free.1, ih free.2]
      rfl

end set

/- A changed value has fewer strings, and still no nulls. -/
def Lowers (normalize : Normalizer) : Prop := ∀ schema value isRoot next, nullFree value = true →
  normalize schema value isRoot = some next → nullFree next = true ∧ strings next < strings value

section lowers
variable {rt : ArgumentRuntime} {normalize : Normalizer} (lowers : Lowers normalize)

theorem parse_lowers {text type : JsString} {next : Json} (parsed : tryParseNumberString rt text type = some next) :
    nullFree next = true ∧ strings next < strings (.str text) := by
  rw [tryParseNumberString] at parsed
  split at parsed
  · contradiction
  · split at parsed
    · contradiction
    · split at parsed
      · rw [← Option.some.inj parsed]
        exact ⟨rfl,Nat.one_pos⟩
      · contradiction

include lowers

theorem anyOf_lowers {value : Json} (free : nullFree value = true) {isRoot : Bool} {branches : List Json} {candidate : Option Json}
    (known : ∀ next, candidate = some next → nullFree next = true ∧ strings next < strings value) {next : Json}
    (changed : normalizeAnyOfLike rt normalize value isRoot branches candidate = some next) :
    nullFree next = true ∧ strings next < strings value := by
  induction branches generalizing candidate with
  | nil => exact known next changed
  | cons branch rest ih =>
    rw [normalizeAnyOfLike] at changed
    cases made : normalize branch value isRoot with
    | none =>
      rw [made] at changed
      exact ih known changed
    | some own =>
      have here := lowers branch value isRoot own free made
      rw [made] at changed
      dsimp only at changed
      split at changed
      · rw [← Option.some.inj changed]
        exact here
      · refine ih ?_ changed
        intro other is
        cases candidate with
        | none =>
          rw [← Option.some.inj is]
          exact here
        | some first => exact known other is

theorem allOf_lowers {isRoot : Bool} {branches : List Json} {value next : Json} (free : nullFree value = true)
    (changed : normalizeAllOf normalize isRoot branches value = some next) : nullFree next = true ∧ strings next < strings value := by
  induction branches generalizing value next with
  | nil => contradiction
  | cons branch rest ih =>
    rw [normalizeAllOf] at changed
    cases made : normalize branch value isRoot with
    | none =>
      rw [made] at changed
      exact ih free changed
    | some own =>
      obtain ⟨clean,fewer⟩ := lowers branch value isRoot own free made
      rw [made] at changed
      have is := Option.some.inj changed
      cases more : normalizeAllOf normalize isRoot rest own with
      | none =>
        rw [more, Option.getD_none] at is
        rw [← is]
        exact ⟨clean,fewer⟩
      | some last =>
        obtain ⟨clean',fewer'⟩ := ih clean more
        rw [more, Option.getD_some] at is
        rw [← is]
        exact ⟨clean',by omega⟩

theorem items_lowers {itemSchema : Json} {items next : List Json} (free : nullFreeItems items = true)
    (changed : normalizeItems normalize itemSchema items = some next) :
    nullFreeItems next = true ∧ stringsItems next < stringsItems items := by
  induction items generalizing next with
  | nil => contradiction
  | cons item rest ih =>
    rw [nullFreeItems, Bool.and_eq_true] at free
    rw [normalizeItems] at changed
    cases made : normalize itemSchema item false with
    | none =>
      cases others : normalizeItems normalize itemSchema rest with
      | none =>
        rw [made, others] at changed
        contradiction
      | some later =>
        obtain ⟨clean,fewer⟩ := ih free.2 others
        rw [made, others] at changed
        rw [← Option.some.inj changed]
        simp only [Option.getD_none, Option.getD_some, nullFreeItems, stringsItems, free.1, clean, Bool.and_self, true_and]
        omega
    | some own =>
      obtain ⟨clean,fewer⟩ := lowers itemSchema item false own free.1 made
      cases others : normalizeItems normalize itemSchema rest with
      | none =>
        rw [made, others] at changed
        rw [← Option.some.inj changed]
        simp only [Option.getD_none, Option.getD_some, nullFreeItems, stringsItems, free.2, clean, Bool.and_self, true_and]
        omega
      | some later =>
        obtain ⟨clean',fewer'⟩ := ih free.2 others
        rw [made, others] at changed
        rw [← Option.some.inj changed]
        simp only [Option.getD_some, nullFreeItems, stringsItems, clean, clean', Bool.and_self, true_and]
        omega

/-- A property changes the object only where its value changes. -/
theorem property_step {required : List JsString} {state : Fields × Bool} {property : JsString × Json}
    (free : nullFreeFields state.1 = true) : normalizeProperty normalize required state property = state ∨
      ∃ value next, getField state.1 property.1 = some value ∧ normalize property.2 value false = some next ∧
        normalizeProperty normalize required state property = (setField state.1 property.1 next, true) ∧
        nullFreeFields (setField state.1 property.1 next) = true ∧
        stringsFields (setField state.1 property.1 next) < stringsFields state.1 := by
  rw [normalizeProperty]
  cases found : getField state.1 property.1 with
  | none => exact .inl rfl
  | some value =>
    have clean := nullFree_get free found
    have notNullish := (nullFree_notNullish clean).1
    dsimp only
    rw [notNullish, Bool.false_and, if_neg Bool.false_ne_true, if_neg Bool.false_ne_true]
    dsimp only
    cases made : normalize property.2 value false with
    | none => exact .inl rfl
    | some next =>
      obtain ⟨clean',fewer⟩ := lowers property.2 value false next clean made
      have sum := @setField_strings state.1 property.1 value next found
      exact .inr ⟨value,next,rfl,made,rfl,setField_free free clean',by omega⟩

theorem properties_lower {required : List JsString} {properties : Fields} {state : Fields × Bool} (free : nullFreeFields state.1 = true) :
    nullFreeFields (properties.foldl (normalizeProperty normalize required) state).1 = true ∧
      (properties.foldl (normalizeProperty normalize required) state = state ∨
        ((properties.foldl (normalizeProperty normalize required) state).2 = true ∧
          stringsFields (properties.foldl (normalizeProperty normalize required) state).1 < stringsFields state.1)) := by
  induction properties generalizing state with
  | nil => exact ⟨free,.inl rfl⟩
  | cons property rest ih =>
    rw [List.foldl_cons]
    rcases @property_step normalize lowers required state property free with same | ⟨_,next,_,_,is,clean,fewer⟩
    · rw [same]
      exact ih free
    · rw [is]
      obtain ⟨clean',later⟩ := @ih (setField state.1 property.1 next, true) clean
      refine ⟨clean',.inr ?_⟩
      rcases later with same | ⟨flag,less⟩
      · rw [same]
        exact ⟨rfl,fewer⟩
      · exact ⟨flag,by dsimp only at less; omega⟩

omit lowers in
theorem strip_still {known : List JsString} {state : Fields × Bool} (free : nullFreeFields state.1 = true) :
    stripUnknown known state = state := by
  have kept : state.1.filter (fun field => known.contains field.1 || !isNullish field.2) = state.1 := by
    rw [List.filter_eq_self]
    intro field mem
    have clean : nullFree field.2 = true := by
      generalize state.1 = fields at free mem
      induction fields with
      | nil => contradiction
      | cons first rest ih =>
        rw [nullFreeFields, Bool.and_eq_true] at free
        rcases List.mem_cons.mp mem with here | later
        · rw [here]
          exact free.1
        · exact ih free.2 later
    rw [(nullFree_notNullish clean).1, Bool.not_false, Bool.or_true]
  rw [stripUnknown, kept]
  simp

/-- The loop over the properties decides. -/
theorem object_eq {schema value : Fields} (free : nullFreeFields value = true) {isRoot : Bool} :
    normalizeObject normalize schema value isRoot =
      if ((propertiesOf schema).foldl (normalizeProperty normalize (requiredNames schema)) (value, false)).2 then
        some (.obj ((propertiesOf schema).foldl (normalizeProperty normalize (requiredNames schema)) (value, false)).1)
      else none := by
  have finished : ∀ properties, normalizeObject.finish normalize schema value isRoot properties =
      if (properties.foldl (normalizeProperty normalize (requiredNames schema)) (value, false)).2 then
        some (.obj (properties.foldl (normalizeProperty normalize (requiredNames schema)) (value, false)).1)
      else none := by
    intro properties
    have clean := (@properties_lower normalize lowers (requiredNames schema) properties (value, false) free).1
    rw [normalizeObject.finish, strip_still clean, ite_self]
  rw [normalizeObject, propertiesOf]
  cases getField schema (js "properties") with
  | none => rfl
  | some declared =>
    cases declared with
    | obj properties => exact finished properties
    | arr items => exact finished (entriesOf (.arr items))
    | null => rfl
    | bool value => rfl
    | num text => rfl
    | str text => rfl

theorem kind_lowers {schema : Fields} {value next : Json} (free : nullFree value = true) {isRoot : Bool}
    (changed : normalizeKind rt normalize schema value isRoot = some next) : nullFree next = true ∧ strings next < strings value := by
  cases value with
  | arr items =>
    rw [normalizeKind] at changed
    split at changed
    · obtain ⟨made,is,same⟩ := Option.map_eq_some_iff.mp changed
      rw [← same]
      exact items_lowers lowers free is
    · contradiction
  | str text =>
    rw [normalizeKind] at changed
    split at changed
    · exact parse_lowers changed
    · split at changed
      · exact parse_lowers changed
      · contradiction
  | obj fields =>
    rw [normalizeKind] at changed
    split at changed
    · obtain ⟨clean,less⟩ := @properties_lower normalize lowers (requiredNames schema) (propertiesOf schema) (fields, false) free
      rw [object_eq lowers free] at changed
      split at changed
      · rename_i flag
        rw [← Option.some.inj changed]
        rcases less with same | ⟨_,fewer⟩
        · rw [same] at flag
          contradiction
        · exact ⟨clean,fewer⟩
      · contradiction
    · contradiction
  | null => contradiction
  | bool value => contradiction
  | num text => contradiction

theorem node_lowers {schema : Fields} {value next : Json} (free : nullFree value = true) {isRoot : Bool}
    (changed : normalizeNode rt normalize schema value isRoot = some next) : nullFree next = true ∧ strings next < strings value := by
  have none' : ∀ next, (none : Option Json) = some next → nullFree next = true ∧ strings next < strings value :=
    fun _ absurd' => by contradiction
  rw [normalizeNode] at changed
  split at changed
  · rename_i own first
    rw [← Option.some.inj changed]
    exact anyOf_lowers lowers free none' first
  · split at changed
    · rename_i own second
      rw [← Option.some.inj changed]
      exact anyOf_lowers lowers free none' second
    · split at changed
      · rename_i own third
        rw [← Option.some.inj changed]
        exact allOf_lowers lowers free third
      · exact kind_lowers lowers free changed

end lowers

theorem fuel_lowers (rt : ArgumentRuntime) (fuel : Nat) : Lowers (normalizeFuel rt fuel) := by
  induction fuel with
  | zero =>
    intro schema value isRoot next free changed
    contradiction
  | succ fuel ih =>
    intro schema value isRoot next free changed
    cases schema with
    | obj fields =>
      rw [normalizeFuel, if_neg (nullFree_notNullish free).2] at changed
      exact node_lowers ih free changed
    | null => contradiction
    | bool value => contradiction
    | num text => contradiction
    | str text => contradiction
    | arr items => contradiction

section unchanged
variable {rt : ArgumentRuntime} {normalize : Normalizer} {fires : Json → Json → Bool}
  (agree : ∀ schema value isRoot, nullFree value = true → (normalize schema value isRoot = none ↔ fires schema value = false))
include agree

theorem anyOf_none {value : Json} (free : nullFree value = true) {isRoot : Bool} {branches : List Json} {candidate : Option Json} :
    normalizeAnyOfLike rt normalize value isRoot branches candidate = none ↔
      candidate = none ∧ (branches.any fun branch => fires branch value) = false := by
  induction branches generalizing candidate with
  | nil => simp [normalizeAnyOfLike]
  | cons branch rest ih =>
    rw [normalizeAnyOfLike, List.any_cons, Bool.or_eq_false_iff]
    cases made : normalize branch value isRoot with
    | none =>
      have quiet := (agree branch value isRoot free).mp made
      dsimp only
      rw [ih, quiet]
      simp
    | some next =>
      have loud : fires branch value ≠ false := fun quiet => by
        have silent := (agree branch value isRoot free).mpr quiet
        rw [made] at silent
        contradiction
      dsimp only
      split
      · constructor
        · intro absurd'
          contradiction
        · intro ⟨_,quiet,_⟩
          exact absurd quiet loud
      · rw [ih]
        constructor
        · intro ⟨nothing,_⟩
          cases candidate with
          | none => contradiction
          | some first => contradiction
        · intro ⟨_,quiet,_⟩
          exact absurd quiet loud

theorem allOf_none {value : Json} (free : nullFree value = true) {isRoot : Bool} {branches : List Json} :
    normalizeAllOf normalize isRoot branches value = none ↔ (branches.any fun branch => fires branch value) = false := by
  induction branches with
  | nil => simp [normalizeAllOf]
  | cons branch rest ih =>
    rw [normalizeAllOf, List.any_cons, Bool.or_eq_false_iff, ← agree branch value isRoot free]
    cases made : normalize branch value isRoot with
    | none => simpa using ih
    | some next => simp

theorem items_none {itemSchema : Json} {items : List Json} (free : nullFreeItems items = true) :
    normalizeItems normalize itemSchema items = none ↔ (items.any fun item => fires itemSchema item) = false := by
  induction items with
  | nil => simp [normalizeItems]
  | cons item rest ih =>
    rw [nullFreeItems, Bool.and_eq_true] at free
    rw [normalizeItems, List.any_cons, Bool.or_eq_false_iff, ← agree itemSchema item false free.1, ← ih free.2]
    cases normalize itemSchema item false with
    | none =>
      cases normalizeItems normalize itemSchema rest with
      | none => simp
      | some later => simp
    | some own => simp

theorem properties_none (lowers : Lowers normalize) {required : List JsString} {properties value : Fields}
    (free : nullFreeFields value = true) :
    (properties.foldl (normalizeProperty normalize required) (value, false)).2 = false ↔
      (properties.any fun property => (getField value property.1).any fun own => fires property.2 own) = false := by
  induction properties with
  | nil => simp
  | cons property rest ih =>
    rw [List.foldl_cons, List.any_cons, Bool.or_eq_false_iff]
    rcases @property_step normalize lowers required (value, false) property free with
      same | ⟨own,next,found,made,is,clean,_⟩
    · have quiet : ((getField value property.1).any fun own => fires property.2 own) = false := by
        cases found : getField value property.1 with
        | none => rfl
        | some own =>
          have clean := nullFree_get free found
          rw [normalizeProperty] at same
          dsimp only at same
          rw [found] at same
          dsimp only at same
          rw [(nullFree_notNullish clean).1, Bool.false_and, if_neg Bool.false_ne_true, if_neg Bool.false_ne_true] at same
          rw [Option.any_some, ← agree property.2 own false clean]
          cases made : normalize property.2 own false with
          | none => rfl
          | some next =>
            rw [made] at same
            exact absurd (congrArg Prod.snd same) (by simp)
      rw [same, ih]
      simp [quiet]
    · have flag : (rest.foldl (normalizeProperty normalize required) (setField value property.1 next, true)).2 = true := by
        rcases (@properties_lower normalize lowers required rest (setField value property.1 next, true) clean).2 with kept | ⟨set,_⟩
        · rw [kept]
        · exact set
      dsimp only at found
      have loud : fires property.2 own ≠ false := fun quiet => by
        have silent := (agree property.2 own false (nullFree_get free found)).mpr quiet
        rw [made] at silent
        contradiction
      rw [is, flag, found, Option.any_some]
      simp [loud]

theorem kind_none (lowers : Lowers normalize) {schema : Fields} {value : Json} (free : nullFree value = true) {isRoot : Bool} :
    normalizeKind rt normalize schema value isRoot = none ↔ coercibleKind rt fires schema value = false := by
  cases value with
  | arr items =>
    rw [normalizeKind, coercibleKind]
    cases getField schema (js "items") with
    | none => simp
    | some itemSchema =>
      cases itemSchema with
      | obj itemSchema => exact Option.map_eq_none_iff.trans (items_none agree free)
      | null => simp
      | bool value => simp
      | num text => simp
      | str text => simp
      | arr items => simp
  | str text =>
    rw [normalizeKind, coercibleKind]
    have differ : js "number" ≠ js "integer" := by decide
    split
    · rename_i number
      simp [number, differ]
    · split
      · rename_i notNumber integer
        simp [integer, differ.symm]
      · rename_i notNumber notInteger
        simp [notNumber, notInteger]
  | obj fields =>
    have loop := @properties_none normalize fires agree lowers (requiredNames schema) (propertiesOf schema) fields free
    rw [normalizeKind, coercibleKind]
    split
    · rename_i object
      rw [object_eq lowers free, object, beq_self_eq_true, Bool.true_and, ← loop]
      simp
    · rename_i other
      simp [other]
  | null => contradiction
  | bool value => simp [normalizeKind, coercibleKind]
  | num text => simp [normalizeKind, coercibleKind]

theorem node_none (lowers : Lowers normalize) {schema : Fields} {value : Json} (free : nullFree value = true) {isRoot : Bool} :
    normalizeNode rt normalize schema value isRoot = none ↔
      (coercibleBranch fires schema (js "anyOf") value || coercibleBranch fires schema (js "oneOf") value ||
        coercibleBranch fires schema (js "allOf") value || coercibleKind rt fires schema value) = false := by
  have quiet : ∀ keyword, normalizeAnyOfLike rt normalize value isRoot ((arrayOf? schema keyword).getD []) none = none ↔
      coercibleBranch fires schema keyword value = false := by
    intro keyword
    rw [anyOf_none agree free, coercibleBranch]
    exact and_iff_right rfl
  have quiet' : normalizeAllOf normalize isRoot ((arrayOf? schema (js "allOf")).getD []) value = none ↔
      coercibleBranch fires schema (js "allOf") value = false := allOf_none agree free
  have kind : normalizeKind rt normalize schema value isRoot = none ↔ coercibleKind rt fires schema value = false :=
    kind_none agree lowers free
  rw [normalizeNode, Bool.or_eq_false_iff, Bool.or_eq_false_iff, Bool.or_eq_false_iff, ← quiet, ← quiet, ← quiet', ← kind]
  cases normalizeAnyOfLike rt normalize value isRoot ((arrayOf? schema (js "anyOf")).getD []) none with
  | some next => simp
  | none =>
    cases normalizeAnyOfLike rt normalize value isRoot ((arrayOf? schema (js "oneOf")).getD []) none with
    | some next => simp
    | none =>
      cases normalizeAllOf normalize isRoot ((arrayOf? schema (js "allOf")).getD []) value with
      | some next => simp
      | none => simp

end unchanged

section enough
variable {rt : ArgumentRuntime} {first second : Normalizer}

theorem anyOf_congr {value : Json} {isRoot : Bool} {branches : List Json}
    (same : ∀ branch ∈ branches, first branch value isRoot = second branch value isRoot) (candidate : Option Json) :
    normalizeAnyOfLike rt first value isRoot branches candidate = normalizeAnyOfLike rt second value isRoot branches candidate := by
  induction branches generalizing candidate with
  | nil => rfl
  | cons branch rest ih =>
    obtain ⟨here,later⟩ := List.forall_mem_cons.mp same
    rw [normalizeAnyOfLike, normalizeAnyOfLike, here]
    simp only [ih later]

theorem allOf_congr {isRoot : Bool} {branches : List Json}
    (same : ∀ branch ∈ branches, ∀ value, first branch value isRoot = second branch value isRoot) (value : Json) :
    normalizeAllOf first isRoot branches value = normalizeAllOf second isRoot branches value := by
  induction branches generalizing value with
  | nil => rfl
  | cons branch rest ih =>
    obtain ⟨here,later⟩ := List.forall_mem_cons.mp same
    rw [normalizeAllOf, normalizeAllOf, here]
    simp only [ih later]

theorem items_congr {itemSchema : Json} (same : ∀ value isRoot, first itemSchema value isRoot = second itemSchema value isRoot)
    (items : List Json) : normalizeItems first itemSchema items = normalizeItems second itemSchema items := by
  induction items with
  | nil => rfl
  | cons item rest ih => rw [normalizeItems, normalizeItems, same, ih]

theorem properties_congr {required : List JsString} {properties : Fields}
    (same : ∀ property ∈ properties, ∀ value isRoot, first property.2 value isRoot = second property.2 value isRoot)
    (state : Fields × Bool) : properties.foldl (normalizeProperty first required) state =
      properties.foldl (normalizeProperty second required) state := by
  apply List.foldl_ext
  intro state property mem
  rw [normalizeProperty, normalizeProperty]
  simp only [same property mem]

theorem node_congr {schema : Fields} (same : ∀ sub, depth sub < depth (.obj schema) → ∀ value isRoot,
    first sub value isRoot = second sub value isRoot) (value : Json) (isRoot : Bool) :
    normalizeNode rt first schema value isRoot = normalizeNode rt second schema value isRoot := by
  have branches : ∀ keyword, ∀ branch ∈ (arrayOf? schema keyword).getD [], ∀ value isRoot,
      first branch value isRoot = second branch value isRoot := by
    intro keyword branch mem
    cases found : arrayOf? schema keyword with
    | none =>
      rw [found] at mem
      contradiction
    | some list =>
      rw [found] at mem
      exact same branch (depth_array found mem)
  have object : ∀ fields, normalizeObject first schema fields isRoot = normalizeObject second schema fields isRoot := by
    intro fields
    rw [normalizeObject, normalizeObject]
    split
    · rename_i properties found
      have inner : ∀ property ∈ properties, ∀ value isRoot, first property.2 value isRoot = second property.2 value isRoot := by
        intro property mem
        have outer := depth_get found
        have below := depth_field mem
        rw [depth] at outer
        exact same property.2 (by omega)
      rw [normalizeObject.finish, normalizeObject.finish, properties_congr inner]
    · rename_i items found
      have inner : ∀ property ∈ entriesOf (.arr items), ∀ value isRoot,
          first property.2 value isRoot = second property.2 value isRoot := by
        intro property mem
        obtain ⟨item,inside,is⟩ := List.mem_map.mp mem
        have outer := depth_get found
        have below := depth_item (List.fst_mem_of_mem_zipIdx inside)
        rw [depth] at outer
        rw [← is]
        exact same item.1 (by omega)
      rw [normalizeObject.finish, normalizeObject.finish, properties_congr inner]
    · rfl
  have kind : normalizeKind rt first schema value isRoot = normalizeKind rt second schema value isRoot := by
    cases value with
    | arr items =>
      rw [normalizeKind, normalizeKind]
      split
      · rename_i itemSchema found
        rw [items_congr (same _ (depth_get found))]
      · rfl
    | str text => rfl
    | obj fields => rw [normalizeKind, normalizeKind, object]
    | null => rfl
    | bool value => rfl
    | num text => rfl
  rw [normalizeNode, normalizeNode, anyOf_congr (fun branch mem => branches _ branch mem value isRoot),
    anyOf_congr (fun branch mem => branches _ branch mem value isRoot),
    allOf_congr (fun branch mem value => branches _ branch mem value isRoot), kind]

end enough

/-- More fuel than the depth of the schema changes nothing. -/
theorem normalizeFuel_enough (rt : ArgumentRuntime) {fuel more : Nat} {schema : Json} (enough : depth schema < fuel)
    (enough' : depth schema < more) (value : Json) (isRoot : Bool) :
    normalizeFuel rt fuel schema value isRoot = normalizeFuel rt more schema value isRoot := by
  induction fuel generalizing more schema value isRoot with
  | zero => omega
  | succ fuel ih =>
    obtain ⟨rest,rfl⟩ : ∃ rest, more = rest + 1 := Nat.exists_eq_succ_of_ne_zero (by omega)
    cases schema with
    | obj fields =>
      rw [normalizeFuel, normalizeFuel]
      split
      · rfl
      · apply node_congr
        intro sub below value isRoot
        exact ih (by omega) (by omega) value isRoot
    | null => rfl
    | bool value => rfl
    | num text => rfl
    | str text => rfl
    | arr items => rfl

/-- Nothing changes exactly when no string is coerced. -/
theorem fuel_none (rt : ArgumentRuntime) (fuel : Nat) (schema value : Json) (isRoot : Bool) (free : nullFree value = true) :
    normalizeFuel rt fuel schema value isRoot = none ↔ coercibleFuel rt fuel schema value = false := by
  induction fuel generalizing schema value isRoot with
  | zero => simp [normalizeFuel, coercibleFuel]
  | succ fuel ih =>
    cases schema with
    | obj fields =>
      rw [normalizeFuel, if_neg (nullFree_notNullish free).2, node_none ih (fuel_lowers rt fuel) free, coercibleFuel]
    | null => simp [normalizeFuel, coercibleFuel]
    | bool value => simp [normalizeFuel, coercibleFuel]
    | num text => simp [normalizeFuel, coercibleFuel]
    | str text => simp [normalizeFuel, coercibleFuel]
    | arr items => simp [normalizeFuel, coercibleFuel]

/-- Valid arguments without nulls come back as they are when no string is coerced; and where one is, and
    the rewritten arguments are valid too, it is those that come back. -/
theorem arguments_kept (rt : ArgumentRuntime) (repair : Json → Json → Except JsString Json) (parameters originalArgs : Json)
    (free : nullFree originalArgs = true)
    (valid : isJsonSchemaValueValid rt.toRuntime (upgradeJsonSchemaTo202012 parameters) originalArgs = true) :
    (coercible rt (upgradeJsonSchemaTo202012 parameters) originalArgs = false →
      validateToolArguments rt repair parameters originalArgs = .ok originalArgs) ∧
    (coercible rt (upgradeJsonSchemaTo202012 parameters) originalArgs = true →
      ∃ rewritten, rewritten ≠ originalArgs ∧
        normalizeOptionalNullsForSchema rt (upgradeJsonSchemaTo202012 parameters) originalArgs true = some rewritten ∧
        (isJsonSchemaValueValid rt.toRuntime (upgradeJsonSchemaTo202012 parameters) rewritten = true →
          validateToolArguments rt repair parameters originalArgs = .ok rewritten)) := by
  have quiet := fuel_none rt (depth (upgradeJsonSchemaTo202012 parameters) + 1) (upgradeJsonSchemaTo202012 parameters) originalArgs true free
  constructor
  · intro calm
    have same : normalizeOptionalNullsForSchema rt (upgradeJsonSchemaTo202012 parameters) originalArgs true = none := quiet.mpr calm
    rw [validateToolArguments, same, Option.getD_none, if_pos valid]
  · intro loud
    cases made : normalizeOptionalNullsForSchema rt (upgradeJsonSchemaTo202012 parameters) originalArgs true with
    | none =>
      have calm : coercible rt (upgradeJsonSchemaTo202012 parameters) originalArgs = false := quiet.mp made
      rw [calm] at loud
      contradiction
    | some rewritten =>
      have fewer := (fuel_lowers rt _ _ _ _ _ free made).2
      refine ⟨rewritten,?_,rfl,?_⟩
      · intro same
        rw [same] at fewer
        exact absurd fewer (Nat.lt_irrefl _)
      · intro valid'
        rw [validateToolArguments, made, Option.getD_some, if_pos valid']

/- Small natural numbers and patterns without special characters. -/
def naturalArguments : ArgumentRuntime where
  toRuntime := JsonSchema.naturalRuntime
  toNumber := some

def textOrNumber : Json := .obj [(js "type", .str (js "object")), (js "properties", .obj [(js "id", .obj [(js "anyOf",
  .arr [.obj [(js "type", .str (js "string"))], .obj [(js "type", .str (js "number"))]])])])]

def withId (text : String) : Json := .obj [(js "id", .str (js text))]

theorem letters_kept : validateToolArguments naturalArguments (fun _ _ => .error []) textOrNumber (withId "a5") = .ok (withId "a5") :=
  (arguments_kept naturalArguments (fun _ _ => .error []) textOrNumber (withId "a5") (by decide +kernel) (by decide +kernel)).1
    (by decide +kernel)

/-- The second branch turns the string into a number, although the first accepts the string. -/
theorem digits_rewritten :
    isJsonSchemaValueValid naturalRuntime (upgradeJsonSchemaTo202012 textOrNumber) (withId "5") = true ∧ nullFree (withId "5") = true ∧
      validateToolArguments naturalArguments (fun _ _ => .error []) textOrNumber (withId "5") = .ok (.obj [(js "id", .num (js "5"))]) ∧
      .obj [(js "id", .num (js "5"))] ≠ withId "5" := by
  decide +kernel

end ArgumentsKept
