import OpenAgents.Schema.Validator
import Mathlib.Data.List.Forall2

/- How the keywords depend on the checks of their sub-schemas: where each of these accepts no less,
   neither does the keyword, except that `not` turns it around and `if` and `maxContains` need both. -/
namespace JsonSchema
open JsText JsJson JsObject

variable {item : Json} {field : JsString × Json}

theorem depth_item {items : List Json} (mem : item ∈ items) : depth item ≤ depthItems items := by
  induction items with
  | nil => contradiction
  | cons first rest ih =>
    rw [depthItems]
    rcases List.mem_cons.mp mem with rfl | later
    · omega
    · have below := ih later
      omega

theorem depth_field {fields : Fields} (mem : field ∈ fields) : depth field.2 ≤ depthFields fields := by
  induction fields with
  | nil => contradiction
  | cons first rest ih =>
    rw [depthFields]
    rcases List.mem_cons.mp mem with rfl | later
    · omega
    · have below := ih later
      omega

theorem depth_get {fields : Fields} {key : JsString} {value : Json} (found : getField fields key = some value) :
    depth value < depth (.obj fields) := by
  have below : depth value ≤ depthFields fields := depth_field (mem_of_get found)
  rw [depth]
  omega

theorem depth_array {fields : Fields} {key : JsString} {items : List Json} (found : arrayOf? fields key = some items)
    (mem : item ∈ items) : depth item < depth (.obj fields) := by
  rw [arrayOf?] at found
  split at found
  · rename_i here
    cases found
    have outer := depth_get here
    have inner := depth_item mem
    rw [depth] at outer
    omega
  · contradiction

theorem depth_map {fields : Fields} {key : JsString} (mem : field ∈ objectOf fields key) :
    depth field.2 < depth (.obj fields) := by
  rw [objectOf] at mem
  split at mem
  · rename_i here
    have outer := depth_get here
    have inner := depth_field mem
    rw [depth] at outer
    omega
  · contradiction

/- A function has nothing inside. -/
def subjectDepth : Subject → Nat
  | some value => depth value
  | none => 0

/- The value itself at its path, or something inside it. -/
def Within (value : Subject) (path : Path) (inner : Subject) (place : Path) : Prop :=
  (inner = value ∧ place = path) ∨ subjectDepth inner < subjectDepth value

theorem within_self (value : Subject) (path : Path) : Within value path value path := .inl ⟨rfl,rfl⟩

theorem within_field {fields : Fields} {path place : Path} (mem : field ∈ fields) :
    Within (some (.obj fields)) path (some field.2) place := by
  right
  have below := depth_field mem
  rw [subjectDepth, subjectDepth, depth]
  omega

theorem within_get {fields : Fields} {path place : Path} {key : JsString} {value : Json}
    (found : getField fields key = some value) : Within (some (.obj fields)) path (some value) place := .inr (depth_get found)

theorem within_key {fields : Fields} {path place : Path} (key : JsString) :
    Within (some (.obj fields)) path (some (.str key)) place := by
  right
  have text : subjectDepth (some (.str key)) = 0 := rfl
  rw [text, subjectDepth, depth]
  omega

theorem within_inherited {fields : Fields} {path place : Path} : Within (some (.obj fields)) path none place := by
  right
  rw [subjectDepth, subjectDepth, depth]
  omega

theorem within_item {items : List Json} {path place : Path} {entry : Json × Nat} (mem : entry ∈ items.zipIdx) :
    Within (some (.arr items)) path (some entry.1) place := by
  right
  have inside : entry.1 ∈ items := List.fst_mem_of_mem_zipIdx mem
  have below := depth_item inside
  rw [subjectDepth, subjectDepth, depth]
  omega

/- `check'` of the second schema accepts what `check` of the first one does, inside a value. -/
def Weaker (check check' : Check) (value : Subject) (path : Path) (schema schema' : Json) : Prop :=
  ∀ inner place, Within value path inner place → check schema inner place = true → check' schema' inner place = true

def WeakerField (check check' : Check) (value : Subject) (path : Path) (field field' : JsString × Json) : Prop :=
  field.1 = field'.1 ∧ Weaker check check' value path field.2 field'.2

def WeakerMaps (check check' : Check) (value : Subject) (path : Path) (fields fields' : Fields) : Prop :=
  List.Forall₂ (WeakerField check check' value path) fields fields'

def WeakerLists (check check' : Check) (value : Subject) (path : Path) (schemas schemas' : List Json) : Prop :=
  List.Forall₂ (Weaker check check' value path) schemas schemas'

/- Boolean schemas are verdicts. -/
def Verdicts (check : Check) : Prop := ∀ verdict value path, check (.bool verdict) value path = verdict

section keywords
variable {rt : Runtime} {check check' : Check} {schema schema' : Fields}

variable {α β : Type} {path : Path} {entries : List (Json × Nat)}

theorem forall₂_right {r : α → β → Prop} {xs : List α} {ys : List β} (related : List.Forall₂ r xs ys) {y : β} (mem : y ∈ ys) : ∃ x ∈ xs, r x y := by
  induction related with
  | nil => contradiction
  | cons here _ ih =>
    rcases List.mem_cons.mp mem with rfl | later
    · exact ⟨_,List.mem_cons_self,here⟩
    · obtain ⟨x,inside,found⟩ := ih later
      exact ⟨x,List.mem_cons_of_mem _ inside,found⟩

theorem forall₂_left {r : α → β → Prop} {xs : List α} {ys : List β} (related : List.Forall₂ r xs ys) {x : α} (mem : x ∈ xs) : ∃ y ∈ ys, r x y := by
  induction related with
  | nil => contradiction
  | cons here _ ih =>
    rcases List.mem_cons.mp mem with rfl | later
    · exact ⟨_,List.mem_cons_self,here⟩
    · obtain ⟨y,inside,found⟩ := ih later
      exact ⟨y,List.mem_cons_of_mem _ inside,found⟩

theorem all_of_weaker {r : α → β → Prop} {xs : List α} {ys : List β} {p : α → Bool} {q : β → Bool}
    (related : List.Forall₂ r xs ys) (step : ∀ x y, r x y → p x = true → q y = true) (all : xs.all p = true) :
    ys.all q = true := by
  rw [List.all_eq_true] at all ⊢
  intro y mem
  obtain ⟨x,inside,found⟩ := forall₂_right related mem
  exact step x y found (all x inside)

theorem any_of_weaker {r : α → β → Prop} {xs : List α} {ys : List β} {p : α → Bool} {q : β → Bool}
    (related : List.Forall₂ r xs ys) (step : ∀ x y, r x y → p x = true → q y = true) (any : xs.any p = true) :
    ys.any q = true := by
  rw [List.any_eq_true] at any ⊢
  obtain ⟨x,mem,holds⟩ := any
  obtain ⟨y,inside,found⟩ := forall₂_left related mem
  exact ⟨y,inside,step x y found holds⟩

theorem properties_weaker {value : Fields}
    (maps : WeakerMaps check check' (some (.obj value)) path (objectOf schema (js "properties")) (objectOf schema' (js "properties")))
    (holds : propertiesOk check schema value path = true) : propertiesOk check' schema' value path = true := by
  refine all_of_weaker maps ?_ holds
  intro field field' weaker passes
  dsimp only at passes ⊢
  rw [← weaker.1]
  cases found : getField value field.1 with
  | none =>
    rw [found] at passes
    rw [Bool.or_eq_true] at passes ⊢
    rcases passes with missing | passed
    · exact .inl missing
    · exact .inr (weaker.2 none _ within_inherited passed)
  | some item =>
    rw [found] at passes
    exact weaker.2 (some item) _ (within_get found) passes

theorem propertyNames_weaker {value : Fields}
    (names : Option.Rel (Weaker check check' (some (.obj value)) path) (getField schema (js "propertyNames"))
      (getField schema' (js "propertyNames"))) (holds : propertyNamesOk check schema value path = true) : propertyNamesOk check' schema' value path = true := by
  rw [propertyNamesOk] at holds ⊢
  generalize getField schema (js "propertyNames") = a, getField schema' (js "propertyNames") = b at names holds ⊢
  cases names with
  | none => rfl
  | some weaker =>
    dsimp only at holds ⊢
    rw [List.all_eq_true] at holds ⊢
    intro field mem
    exact weaker _ _ (within_key field.1) (holds field mem)

theorem patternProperties_weaker {value : Fields}
    (maps : WeakerMaps check check' (some (.obj value)) path (objectOf schema (js "patternProperties"))
      (objectOf schema' (js "patternProperties"))) (holds : patternPropertiesOk rt check schema value path = true) :
    patternPropertiesOk rt check' schema' value path = true := by
  refine all_of_weaker maps ?_ holds
  intro field field' weaker passes
  dsimp only at passes ⊢
  rw [← weaker.1]
  cases found : rt.regex field.1 with
  | none => simp [found] at passes
  | some test =>
    simp only [found, List.all_eq_true, Bool.or_eq_true] at passes ⊢
    intro item mem
    rcases passes item mem with skipped | passed
    · exact .inl skipped
    · exact .inr (weaker.2 (some item.2) _ (within_field mem) passed)

theorem dependentSchemas_weaker {value : Fields}
    (maps : WeakerMaps check check' (some (.obj value)) path (objectOf schema (js "dependentSchemas"))
      (objectOf schema' (js "dependentSchemas"))) (holds : dependentSchemasOk check schema value path = true) : dependentSchemasOk check' schema' value path = true := by
  refine all_of_weaker maps ?_ holds
  intro field field' weaker passes
  rw [Bool.or_eq_true] at passes ⊢
  rw [← weaker.1]
  rcases passes with missing | passed
  · exact .inl missing
  · exact .inr (weaker.2 _ _ (within_self _ _) passed)

theorem known_same (properties : (objectOf schema' (js "properties")).map Prod.fst = (objectOf schema (js "properties")).map Prod.fst)
    (patterns : (objectOf schema' (js "patternProperties")).map Prod.fst =
      (objectOf schema (js "patternProperties")).map Prod.fst) (key : JsString) :
    isKnown rt schema' key = isKnown rt schema key := by
  have byName : ∀ fields : Fields, hasField fields key = (fields.map Prod.fst).any (· = key) := by
    intro fields
    rw [List.any_map]
    rfl
  have byPattern : ∀ fields : Fields, (fields.any fun field => matchesPattern rt key field.1) =
      (fields.map Prod.fst).any (matchesPattern rt key) := by
    intro fields
    rw [List.any_map]
    rfl
  rw [isKnown, isKnown, byName, byName, byPattern, byPattern, properties, patterns]

theorem weakerMaps_keys {value : Subject} {fields fields' : Fields}
    (maps : WeakerMaps check check' value path fields fields') : fields'.map Prod.fst = fields.map Prod.fst := by
  induction maps with
  | nil => rfl
  | cons here _ ih => rw [List.map_cons, List.map_cons, ih, here.1]

/- `true` and `false` need no case of their own. -/
theorem additionalProperties_eq (verdicts : Verdicts check) (value : Fields) (path : Path) :
    additionalPropertiesOk rt check schema value path =
      match getField schema (js "additionalProperties") with
      | some additional =>
          value.all fun (key, item) => isKnown rt schema key || check additional (some item) (path ++ [.name key])
      | none => true := by
  rw [additionalPropertiesOk]
  cases getField schema (js "additionalProperties") with
  | none => rfl
  | some additional =>
    split
    · rename_i yes
      simp only [Option.some.injEq] at yes
      simp [yes, verdicts true]
    · rename_i no
      simp only [Option.some.injEq] at no
      simp [no, verdicts false]
    · rename_i other
      simp only [Option.some.injEq] at other
      rw [other]
    · contradiction

theorem additionalProperties_weaker (verdicts : Verdicts check) (verdicts' : Verdicts check') {value : Fields}
    (known : ∀ key, isKnown rt schema' key = isKnown rt schema key)
    (additional : Option.Rel (Weaker check check' (some (.obj value)) path) (getField schema (js "additionalProperties"))
      (getField schema' (js "additionalProperties"))) (holds : additionalPropertiesOk rt check schema value path = true) :
    additionalPropertiesOk rt check' schema' value path = true := by
  rw [additionalProperties_eq verdicts] at holds
  rw [additionalProperties_eq verdicts']
  generalize getField schema (js "additionalProperties") = a, getField schema' (js "additionalProperties") = b
    at additional holds ⊢
  cases additional with
  | none => rfl
  | some weaker =>
    dsimp only at holds ⊢
    simp only [List.all_eq_true, Bool.or_eq_true, known] at holds ⊢
    intro field mem
    rcases holds field mem with listed | passed
    · exact .inl listed
    · exact .inr (weaker _ _ (within_field mem) passed)

theorem checkEach_weaker {value : List Json} {rest rest' : Json} (inside : ∀ entry ∈ entries, entry ∈ value.zipIdx)
    (weaker : Weaker check check' (some (.arr value)) path rest rest') (holds : checkEach check rest entries path = true) : checkEach check' rest' entries path = true := by
  rw [checkEach, List.all_eq_true] at holds ⊢
  intro entry mem
  exact weaker _ _ (within_item (inside entry mem)) (holds entry mem)

theorem prefix_weaker {value : List Json} {front front' : List Json}
    (lists : WeakerLists check check' (some (.arr value)) path front front')
    (inside : ∀ entry ∈ entries, entry ∈ value.zipIdx)
    (holds : (front.zip entries).all (fun (entry, item, i) => check entry (some item) (path ++ [.index i])) = true) :
    (front'.zip entries).all (fun (entry, item, i) => check' entry (some item) (path ++ [.index i])) = true := by
  induction lists generalizing entries with
  | nil => rfl
  | cons weaker _ ih =>
    cases entries with
    | nil => simp
    | cons entry entries =>
      rw [List.zip_cons_cons, List.all_cons, Bool.and_eq_true] at holds ⊢
      constructor
      · exact weaker _ _ (within_item (inside entry List.mem_cons_self)) holds.1
      · exact ih (fun later mem => inside later (List.mem_cons_of_mem _ mem)) holds.2

theorem allOf_weaker {value : Subject}
    (lists : Option.Rel (WeakerLists check check' value path) (arrayOf? schema (js "allOf")) (arrayOf? schema' (js "allOf")))
    (holds : allOfOk check schema value path = true) : allOfOk check' schema' value path = true := by
  rw [allOfOk] at holds ⊢
  generalize arrayOf? schema (js "allOf") = a, arrayOf? schema' (js "allOf") = b at lists holds ⊢
  cases lists with
  | none => rfl
  | some weaker => exact all_of_weaker weaker (fun branch branch' step => step _ _ (within_self value path)) holds

theorem not_weaker {value : Subject}
    (excluded : Option.Rel (fun a b => Weaker check' check value path b a) (getField schema (js "not"))
      (getField schema' (js "not"))) (holds : notOk check schema value path = true) : notOk check' schema' value path = true := by
  rw [notOk] at holds ⊢
  generalize getField schema (js "not") = first, getField schema' (js "not") = second at excluded holds ⊢
  cases excluded with
  | none => rfl
  | @some a b weaker =>
    dsimp only at holds ⊢
    rw [Bool.not_eq_true'] at holds ⊢
    cases accepted : check' b value path with
    | false => rfl
    | true =>
      rw [weaker _ _ (within_self value path) accepted] at holds
      contradiction

theorem items_weaker {value : List Json}
    (front : WeakerLists check check' (some (.arr value)) path ((arrayOf? schema (js "prefixItems")).getD [])
      ((arrayOf? schema' (js "prefixItems")).getD []))
    (rest : Option.Rel (fun a b => isArray b = isArray a ∧ Weaker check check' (some (.arr value)) path a b)
      (getField schema (js "items")) (getField schema' (js "items"))) (holds : itemsOk check schema value path = true) : itemsOk check' schema' value path = true := by
  rw [itemsOk] at holds ⊢
  generalize getField schema (js "items") = first, getField schema' (js "items") = second at rest holds ⊢
  cases rest with
  | none =>
    simp only [Bool.and_true] at holds ⊢
    exact prefix_weaker front (fun entry mem => mem) holds
  | @some a b related =>
    obtain ⟨kind,weaker⟩ := related
    cases same : isArray a with
    | true =>
      cases a <;> simp [isArray] at same
      contradiction
    | false =>
      have first : ∀ xs, a ≠ .arr xs := by
        intro xs is
        rw [is] at same
        contradiction
      have second : ∀ xs, b ≠ .arr xs := by
        intro xs is
        rw [is, same] at kind
        contradiction
      split at holds
      · rename_i xs is
        exact absurd (Option.some.inj is) (first xs)
      · split
        · rename_i xs is
          exact absurd (Option.some.inj is) (second xs)
        · rw [Bool.and_eq_true] at holds ⊢
          constructor
          · exact prefix_weaker front (fun entry mem => mem) holds.1
          · dsimp only at holds ⊢
            rw [front.length_eq] at holds
            exact checkEach_weaker (fun entry mem => List.mem_of_mem_drop mem) weaker holds.2

theorem containsCount_weaker {value : List Json} {contained contained' : Json}
    (weaker : Weaker check check' (some (.arr value)) path contained contained') :
    containsCount check contained value path ≤ containsCount check' contained' value path :=
  List.countP_mono_left fun _ mem passed => weaker _ _ (within_item mem) passed

/-- More matches meet the lower bound; for the upper one there must not be more. -/
theorem contains_weaker {value : List Json}
    (lowest : numberOf? schema' (js "minContains") = numberOf? schema (js "minContains"))
    (highest : numberOf? schema' (js "maxContains") = numberOf? schema (js "maxContains"))
    (contained : Option.Rel (fun a b => Weaker check check' (some (.arr value)) path a b ∧
        ((numberOf? schema (js "maxContains")).isSome = true → Weaker check' check (some (.arr value)) path b a))
      (getField schema (js "contains")) (getField schema' (js "contains")))
    (holds : containsOk rt check schema value path = true) : containsOk rt check' schema' value path = true := by
  rw [containsOk] at holds ⊢
  generalize getField schema (js "contains") = first, getField schema' (js "contains") = second at contained holds ⊢
  cases contained with
  | none => rfl
  | @some a b related =>
    obtain ⟨weaker,stronger⟩ := related
    dsimp only at holds ⊢
    rw [lowest, highest]
    rw [Bool.and_eq_true] at holds ⊢
    have more := containsCount_weaker weaker
    constructor
    · have enough := holds.1
      rw [Bool.not_eq_true'] at enough ⊢
      cases below : rt.less (decimal (containsCount check' b value path))
          ((numberOf? schema (js "minContains")).getD (decimal 1)) with
      | false => rfl
      | true =>
        rw [rt.less_count _ _ _ more below] at enough
        contradiction
    · cases bound : numberOf? schema (js "maxContains") with
      | none => rfl
      | some limit =>
        have fewer := containsCount_weaker (stronger (by rw [bound]; rfl))
        rw [Nat.le_antisymm fewer more, ← bound]
        exact holds.2

theorem condition_weaker {value : Subject}
    (condition : Option.Rel (fun a b => check' b value path = check a value path) (getField schema (js "if"))
      (getField schema' (js "if")))
    (thenBranch : Option.Rel (Weaker check check' value path) (getField schema (js "then")) (getField schema' (js "then")))
    (elseBranch : Option.Rel (Weaker check check' value path) (getField schema (js "else")) (getField schema' (js "else")))
    (holds : conditionOk check schema value path = true) : conditionOk check' schema' value path = true := by
  rw [conditionOk] at holds ⊢
  generalize getField schema (js "if") = first, getField schema' (js "if") = second at condition holds ⊢
  cases condition with
  | none => rfl
  | @some a b same =>
    dsimp only at holds ⊢
    rw [same]
    cases chosen : check a value path with
    | true =>
      rw [chosen] at holds
      simp only [if_true] at holds ⊢
      generalize getField schema (js "then") = first, getField schema' (js "then") = second at thenBranch holds ⊢
      cases thenBranch with
      | none => rfl
      | some weaker => exact weaker _ _ (within_self value path) holds
    | false =>
      rw [chosen] at holds
      simp only [Bool.false_eq_true, if_false] at holds ⊢
      generalize getField schema (js "else") = first, getField schema' (js "else") = second at elseBranch holds ⊢
      cases elseBranch with
      | none => rfl
      | some weaker => exact weaker _ _ (within_self value path) holds

theorem condition_idle {value : Subject} (noThen : getField schema (js "then") = none)
    (noElse : getField schema (js "else") = none) : conditionOk check schema value path = true := by
  rw [conditionOk]
  cases getField schema (js "if") with
  | none => rfl
  | some condition =>
    dsimp only
    split
    · rename_i branch here
      split at here
      · rw [noThen] at here
        contradiction
      · rw [noElse] at here
        contradiction
    · rfl

end keywords

/- Keywords without a schema in them. -/
def verbatimKeys : List JsString :=
  [js "type", js "nullable", js "const", js "enum", js "required", js "dependentRequired", js "minProperties",
    js "maxProperties", js "minItems", js "maxItems", js "uniqueItems", js "minContains", js "maxContains", js "minLength",
    js "maxLength", js "pattern", js "minimum", js "maximum", js "exclusiveMinimum", js "exclusiveMaximum",
    js "multipleOf"]

/-- Two nodes whose sub-schemas are related as the keywords need it. -/
structure KeywordsFollow (check check' : Check) (schema schema' : Fields) (value : Subject) (path : Path) : Prop where
  verdicts : Verdicts check
  verdicts' : Verdicts check'
  verbatim : ∀ key ∈ verbatimKeys, getField schema' key = getField schema key
  properties : WeakerMaps check check' value path (objectOf schema (js "properties")) (objectOf schema' (js "properties"))
  propertyNames : Option.Rel (Weaker check check' value path) (getField schema (js "propertyNames"))
    (getField schema' (js "propertyNames"))
  patternProperties : WeakerMaps check check' value path (objectOf schema (js "patternProperties"))
    (objectOf schema' (js "patternProperties"))
  dependentSchemas : WeakerMaps check check' value path (objectOf schema (js "dependentSchemas"))
    (objectOf schema' (js "dependentSchemas"))
  additionalProperties : Option.Rel (Weaker check check' value path) (getField schema (js "additionalProperties"))
    (getField schema' (js "additionalProperties"))
  prefixItems : WeakerLists check check' value path ((arrayOf? schema (js "prefixItems")).getD [])
    ((arrayOf? schema' (js "prefixItems")).getD [])
  items : Option.Rel (fun a b => isArray b = isArray a ∧ Weaker check check' value path a b) (getField schema (js "items"))
    (getField schema' (js "items"))
  contained : Option.Rel (fun a b => Weaker check check' value path a b ∧
      ((numberOf? schema (js "maxContains")).isSome = true → Weaker check' check value path b a))
    (getField schema (js "contains")) (getField schema' (js "contains"))
  unions : anyOfOk check schema value path = true → oneOfOk check schema value path = true →
    anyOfOk check' schema' value path = true ∧ oneOfOk check' schema' value path = true
  allOf : Option.Rel (WeakerLists check check' value path) (arrayOf? schema (js "allOf")) (arrayOf? schema' (js "allOf"))
  excluded : Option.Rel (fun a b => Weaker check' check value path b a) (getField schema (js "not"))
    (getField schema' (js "not"))
  condition : conditionOk check schema value path = true → conditionOk check' schema' value path = true

section follow
variable {rt : Runtime} {check check' : Check} {schema schema' : Fields}

theorem same_arrayOf {key : JsString} (same : getField schema' key = getField schema key) :
    arrayOf? schema' key = arrayOf? schema key := by rw [arrayOf?, arrayOf?, same]

theorem same_objectOf {key : JsString} (same : getField schema' key = getField schema key) :
    objectOf schema' key = objectOf schema key := by rw [objectOf, objectOf, same]

theorem same_numberOf {key : JsString} (same : getField schema' key = getField schema key) :
    numberOf? schema' key = numberOf? schema key := by rw [numberOf?, numberOf?, same]

theorem same_isTrue {key : JsString} (same : getField schema' key = getField schema key) :
    isTrue? schema' key = isTrue? schema key := by rw [isTrue?, isTrue?, same]

theorem same_types (type : getField schema' (js "type") = getField schema (js "type"))
    (nullable : getField schema' (js "nullable") = getField schema (js "nullable")) :
    schemaTypes schema' = schemaTypes schema := by
  rw [schemaTypes, schemaTypes, type, same_isTrue nullable]

theorem same_bounds {lowest highest : JsString} (low : getField schema' lowest = getField schema lowest)
    (high : getField schema' highest = getField schema highest) (length : Nat) :
    withinBounds rt schema' lowest highest length = withinBounds rt schema lowest highest length := by
  rw [withinBounds, withinBounds, same_numberOf low, same_numberOf high]

theorem object_weaker {value : Fields} {path : Path} (follow : KeywordsFollow check check' schema schema' (some (.obj value)) path)
    (holds : validateObjectKeywords rt check schema value path = true) :
    validateObjectKeywords rt check' schema' value path = true := by
  have same := follow.verbatim
  simp only [validateObjectKeywords, Bool.and_eq_true] at holds ⊢
  obtain ⟨⟨⟨⟨⟨⟨⟨required,properties⟩,propertyNames⟩,patterns⟩,dependent⟩,schemas⟩,additional⟩,bounds⟩ := holds
  refine ⟨⟨⟨⟨⟨⟨⟨?_,properties_weaker follow.properties properties⟩,
    propertyNames_weaker follow.propertyNames propertyNames⟩,
    patternProperties_weaker follow.patternProperties patterns⟩,?_⟩,
    dependentSchemas_weaker follow.dependentSchemas schemas⟩,?_⟩,?_⟩
  · rw [requiredOk, same (js "required") (by decide)]
    exact required
  · rw [dependentRequiredOk, same_objectOf (same (js "dependentRequired") (by decide))]
    exact dependent
  · exact additionalProperties_weaker follow.verdicts follow.verdicts'
      (known_same (weakerMaps_keys follow.properties) (weakerMaps_keys follow.patternProperties))
      follow.additionalProperties additional
  · rw [same_bounds (same (js "minProperties") (by decide)) (same (js "maxProperties") (by decide))]
    exact bounds

theorem array_weaker {value : List Json} {path : Path}
    (follow : KeywordsFollow check check' schema schema' (some (.arr value)) path)
    (holds : validateArrayKeywords rt check schema value path = true) :
    validateArrayKeywords rt check' schema' value path = true := by
  have same := follow.verbatim
  simp only [validateArrayKeywords, Bool.and_eq_true] at holds ⊢
  obtain ⟨⟨⟨bounds,unique⟩,items⟩,contained⟩ := holds
  refine ⟨⟨⟨?_,?_⟩,items_weaker follow.prefixItems follow.items items⟩,?_⟩
  · rw [same_bounds (same (js "minItems") (by decide)) (same (js "maxItems") (by decide))]
    exact bounds
  · rw [same_isTrue (same (js "uniqueItems") (by decide))]
    exact unique
  · exact contains_weaker (same_numberOf (same (js "minContains") (by decide)))
      (same_numberOf (same (js "maxContains") (by decide))) follow.contained contained

theorem same_string (same : ∀ key ∈ verbatimKeys, getField schema' key = getField schema key) (text : JsString) :
    validateStringKeywords rt schema' text = validateStringKeywords rt schema text := by
  rw [validateStringKeywords, validateStringKeywords, same (js "pattern") (by decide),
    same_bounds (same (js "minLength") (by decide)) (same (js "maxLength") (by decide))]

theorem same_number (same : ∀ key ∈ verbatimKeys, getField schema' key = getField schema key) (text : JsString) :
    validateNumberKeywords rt schema' text = validateNumberKeywords rt schema text := by
  simp only [validateNumberKeywords, same_numberOf (same (js "minimum") (by decide)),
    same_numberOf (same (js "maximum") (by decide)), same_numberOf (same (js "exclusiveMinimum") (by decide)),
    same_numberOf (same (js "exclusiveMaximum") (by decide)), same_numberOf (same (js "multipleOf") (by decide)),
    same_isTrue (same (js "exclusiveMinimum") (by decide)), same_isTrue (same (js "exclusiveMaximum") (by decide))]

theorem kind_weaker {value : Subject} {path : Path} (follow : KeywordsFollow check check' schema schema' value path)
    (holds : kindOk rt check schema value path = true) : kindOk rt check' schema' value path = true := by
  cases value with
  | none => rfl
  | some value =>
    cases value with
    | obj fields => exact object_weaker follow holds
    | arr items => exact array_weaker follow holds
    | str text => exact (same_string follow.verbatim text).trans holds
    | num text => exact (same_number follow.verbatim text).trans holds
    | _ => rfl

theorem keywords_weaker {value : Subject} {path : Path} (follow : KeywordsFollow check check' schema schema' value path)
    (holds : validateKeywords rt check schema value path = true) :
    validateKeywords rt check' schema' value path = true := by
  have same := follow.verbatim
  rw [validateKeywords] at holds ⊢
  rw [same_isTrue (same (js "nullable") (by decide))]
  split
  · rfl
  · rename_i notNull
    rw [if_neg notNull] at holds
    simp only [Bool.and_eq_true] at holds ⊢
    obtain ⟨⟨⟨⟨⟨⟨⟨⟨type,const⟩,enum⟩,anyOf⟩,oneOf⟩,allOf⟩,excluded⟩,condition⟩,kind⟩ := holds
    obtain ⟨anyOf',oneOf'⟩ := follow.unions anyOf oneOf
    refine ⟨⟨⟨⟨⟨⟨⟨⟨?_,?_⟩,?_⟩,anyOf'⟩,oneOf'⟩,allOf_weaker follow.allOf allOf⟩,
      not_weaker follow.excluded excluded⟩,follow.condition condition⟩,kind_weaker follow kind⟩
    · rw [typeOk, same_types (same (js "type") (by decide)) (same (js "nullable") (by decide))]
      exact type
    · rw [constOk, same (js "const") (by decide)]
      exact const
    · rw [enumOk, same_arrayOf (same (js "enum") (by decide))]
      exact enum

end follow

end JsonSchema
