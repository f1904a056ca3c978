import OpenAgents.Schema.ResponsesCalls

/- A sanitized schema and the original one, node by node, and from there for whole schemas. -/
namespace JsonSchema
open JsText JsJson JsObject

/- A sub-schema within the reach of the induction, before and after. -/
def Inside (fields : Fields) (child : Json) : Prop :=
  plain child = true ∧ depth child < depth (.obj fields) ∧
    depth (normalizeOpenAIResponsesSchemaNode child) < depth (.obj (rebuildNode fields (normalizeFields fields)))

section node
variable {fields : Fields} (ok : plain (.obj fields) = true)
include ok

theorem plain_objectOf (key : JsString) : plain (.obj (objectOf fields key)) = true := by
  rw [objectOf]
  split
  · rename_i inner found
    exact plain_get ok found
  · decide

theorem inside_value {key : JsString} (isValue : schemaValueKeys.contains key = true) {child : Json}
    (found : getField fields key = some child) : Inside fields child := by
  have result := node_value (plain_listed ok) isValue
  rw [found, Option.map_some] at result
  exact ⟨plain_get ok found,depth_get found,depth_get result⟩

theorem inside_array {key key' : JsString} {items items' : List Json} (found : arrayOf? fields key = some items)
    (result : arrayOf? (rebuildNode fields (normalizeFields fields)) key' = some items') {item : Json} (mem : item ∈ items)
    (mem' : normalizeOpenAIResponsesSchemaNode item ∈ items') : Inside fields item := by
  refine ⟨?_,depth_array found mem,depth_array result mem'⟩
  rw [arrayOf?] at found
  split at found
  · rename_i inner here
    cases found
    exact plain_items (plain_get ok here) item mem
  · contradiction

theorem node_map {key : JsString} (isMap : validatedMapKeys.contains key = true) :
    objectOf (rebuildNode fields (normalizeFields fields)) key =
      (objectOf fields key).map fun field => (field.1, normalizeOpenAIResponsesSchemaNode field.2) := by
  have listed := plain_listed ok
  have inner := plain_listed (plain_objectOf ok key)
  have cases' : ∀ key ∈ validatedMapKeys,
      key = js "properties" ∨ (key ≠ js "oneOf" ∧ key ≠ js "anyOf" ∧ key ≠ js "properties" ∧
        schemaMapKeys.contains key = true) := by decide
  rcases cases' key (List.contains_iff_mem.mp isMap) with same | ⟨one,two,three,isMapKey⟩
  · rw [same] at inner ⊢
    exact node_properties listed inner
  · exact objectOf_of_get isMapKey inner (get_node listed one two three)

theorem inside_map {key : JsString} (isMap : validatedMapKeys.contains key = true) {field : JsString × Json}
    (mem : field ∈ objectOf fields key) : Inside fields field.2 := by
  refine ⟨plain_fields (plain_objectOf ok key) field mem,depth_map mem,?_⟩
  have mem' : (field.1, normalizeOpenAIResponsesSchemaNode field.2) ∈
      objectOf (rebuildNode fields (normalizeFields fields)) key := by
    rw [node_map ok isMap]
    exact List.mem_map.mpr ⟨field,mem,rfl⟩
  exact depth_map mem'

end node

theorem normalized_isArray (child : Json) : isArray (normalizeOpenAIResponsesSchemaNode child) = isArray child := by
  cases child with
  | obj fields =>
    rw [normalizeOpenAIResponsesSchemaNode]
    split <;> rfl
  | _ => rfl

/-- A node whose sub-schemas are those of `fields` under `f`, unions aside. -/
structure Replaced (f : Json → Json) (fields node : Fields) : Prop where
  verbatim : ∀ key ∈ verbatimKeys, getField node key = getField fields key
  value : ∀ key, schemaValueKeys.contains key = true → getField node key = (getField fields key).map f
  map : ∀ key, validatedMapKeys.contains key = true →
    objectOf node key = (objectOf fields key).map fun field => (field.1, f field.2)
  array : ∀ key ∈ [js "allOf", js "prefixItems"], arrayOf? node key = (arrayOf? fields key).map (List.map f)
  kind : ∀ child, isArray (f child) = isArray child

theorem replaced_self (fields : Fields) : Replaced id fields fields where
  verbatim := fun _ _ => rfl
  value := fun _ _ => (congrFun Option.map_id _).symm
  map := fun _ _ => (List.map_id _).symm
  array := by
    intro key _
    cases arrayOf? fields key <;> simp
  kind := fun _ => rfl

theorem replaced_node {fields : Fields} (ok : plain (.obj fields) = true) :
    Replaced normalizeOpenAIResponsesSchemaNode fields (rebuildNode fields (normalizeFields fields)) where
  verbatim := fun _ mem => node_verbatim (plain_listed ok) mem
  value := fun _ isValue => node_value (plain_listed ok) isValue
  map := fun _ isMap => node_map ok isMap
  array := by
    intro key mem
    have apart : ∀ key ∈ [js "allOf", js "prefixItems"], key ≠ js "oneOf" ∧ key ≠ js "anyOf" ∧ key ≠ js "properties" ∧
        schemaArrayKeys.contains key = true := by decide
    obtain ⟨one,two,three,isArrayKey⟩ := apart key mem
    exact arrayOf_of_get isArrayKey (get_node (plain_listed ok) one two three)
  kind := normalized_isArray

theorem no_branches {fields : Fields} (none' : hasBranches fields = false) :
    getField fields (js "then") = none ∧ getField fields (js "else") = none := by
  rw [hasBranches, Bool.or_eq_false_iff, ← Bool.not_eq_true, ← Bool.not_eq_true, has_iff, has_iff, ← get_none_iff,
    ← get_none_iff] at none'
  exact none'

section follow
variable {fields first second : Fields} {before after : Json → Json} {check check' : Check} {value : Subject} {path : Path}
variable {positive branches limited : Bool}
variable (ok : plain (.obj fields) = true) (one : Replaced before fields first) (two : Replaced after fields second)
variable (polar : polarityFields positive branches limited fields = true)
variable (forward : ∀ child, Inside fields child → polarityOk positive child = true →
  Weaker check check' value path (before child) (after child))
include ok one two polar forward

theorem value_follows {key : JsString} (isValue : schemaValueKeys.contains key = true)
    (validated : validatedValueKeys.contains key = true) :
    Option.Rel (fun a b => isArray b = isArray a ∧ Weaker check check' value path a b) (getField first key)
      (getField second key) := by
  rw [one.value key isValue, two.value key isValue]
  cases found : getField fields key with
  | none => exact .none
  | some child =>
    apply Option.Rel.some
    exact ⟨(two.kind child).trans (one.kind child).symm,
      forward child (inside_value ok isValue found) (polarity_value polar validated found)⟩

theorem schema_follows {key : JsString} (isValue : schemaValueKeys.contains key = true)
    (validated : validatedValueKeys.contains key = true) :
    Option.Rel (Weaker check check' value path) (getField first key) (getField second key) := by
  have related := value_follows ok one two polar forward isValue validated
  generalize getField first key = a, getField second key = b at related
  cases related with
  | none => exact .none
  | some both => exact .some both.2

theorem map_follows {key : JsString} (isMap : validatedMapKeys.contains key = true) :
    WeakerMaps check check' value path (objectOf first key) (objectOf second key) := by
  rw [one.map key isMap, two.map key isMap, WeakerMaps, List.forall₂_map_left_iff, List.forall₂_map_right_iff,
    List.forall₂_same]
  intro field mem
  exact ⟨rfl,forward field.2 (inside_map ok isMap mem) (polarity_objectOf polar isMap field mem)⟩

theorem array_follows {key : JsString} (mem : key ∈ [js "allOf", js "prefixItems"]) :
    Option.Rel (WeakerLists check check' value path) (arrayOf? first key) (arrayOf? second key) := by
  have isArrayKey : ∀ key ∈ [js "allOf", js "prefixItems"], schemaArrayKeys.contains key = true := by decide
  have result := (replaced_node ok).array key mem
  rw [one.array key mem, two.array key mem]
  cases found : arrayOf? fields key with
  | none => exact .none
  | some items =>
    rw [found, Option.map_some] at result
    apply Option.Rel.some
    rw [WeakerLists, List.forall₂_map_left_iff, List.forall₂_map_right_iff, List.forall₂_same]
    intro item here
    exact forward item (inside_array ok found result here (List.mem_map_of_mem here))
      (polarity_arrayOf polar (isArrayKey key mem) found item here)

variable (backward : ∀ child, Inside fields child → polarityOk (!positive) child = true →
  Weaker check' check value path (after child) (before child))
include backward

theorem condition_follows (some' : branches = true) :
    Option.Rel (fun a b => check' b value path = check a value path) (getField first (js "if"))
      (getField second (js "if")) := by
  have isValue : schemaValueKeys.contains (js "if") = true := by decide
  rw [one.value _ isValue, two.value _ isValue]
  cases found : getField fields (js "if") with
  | none => exact .none
  | some child =>
    have inside := inside_value ok isValue found
    obtain ⟨up,down⟩ := polarity_if polar found some'
    have both : polarityOk positive child = true ∧ polarityOk (!positive) child = true := by
      cases positive with
      | true => exact ⟨up,down⟩
      | false => exact ⟨down,up⟩
    apply Option.Rel.some
    rw [Bool.eq_iff_iff]
    exact ⟨backward child inside both.2 _ _ (within_self _ _),forward child inside both.1 _ _ (within_self _ _)⟩

/-- The keywords follow where the sub-schemas do. -/
theorem node_follows (verdicts : Verdicts check) (verdicts' : Verdicts check') (some' : branches = hasBranches fields)
    (bounded : limited = (numberOf? fields (js "maxContains")).isSome)
    (unions : anyOfOk check first value path = true → oneOfOk check first value path = true →
      anyOfOk check' second value path = true ∧ oneOfOk check' second value path = true) :
    KeywordsFollow check check' first second value path where
  verdicts := verdicts
  verdicts' := verdicts'
  verbatim := fun key mem => (two.verbatim key mem).trans (one.verbatim key mem).symm
  properties := map_follows ok one two polar forward (by decide)
  propertyNames := schema_follows ok one two polar forward (by decide) (by decide)
  patternProperties := map_follows ok one two polar forward (by decide)
  dependentSchemas := map_follows ok one two polar forward (by decide)
  additionalProperties := schema_follows ok one two polar forward (by decide) (by decide)
  prefixItems := by
    have related := array_follows ok one two polar forward (by decide : js "prefixItems" ∈ _)
    generalize arrayOf? first (js "prefixItems") = a, arrayOf? second (js "prefixItems") = b at related
    cases related with
    | none => exact .nil
    | some lists => exact lists
  items := value_follows ok one two polar forward (by decide) (by decide)
  contained := by
    have isValue : schemaValueKeys.contains (js "contains") = true := by decide
    rw [one.value _ isValue, two.value _ isValue, same_numberOf (one.verbatim (js "maxContains") (by decide)), ← bounded]
    cases found : getField fields (js "contains") with
    | none => exact .none
    | some child =>
      have inside := inside_value ok isValue found
      obtain ⟨up,down⟩ := polarity_contains polar found
      exact .some ⟨forward child inside up,fun most => backward child inside (down most)⟩
  unions := unions
  allOf := array_follows ok one two polar forward (by decide)
  excluded := by
    have isValue : schemaValueKeys.contains (js "not") = true := by decide
    rw [one.value _ isValue, two.value _ isValue]
    cases found : getField fields (js "not") with
    | none => exact .none
    | some child => exact .some (backward child (inside_value ok isValue found) (polarity_not polar found))
  condition := by
    cases more : branches with
    | true =>
      exact condition_weaker (condition_follows ok one two polar forward backward more)
        (schema_follows ok one two polar forward (by decide) (by decide))
        (schema_follows ok one two polar forward (by decide) (by decide))
    | false =>
      rw [more] at some'
      obtain ⟨noThen,noElse⟩ := no_branches some'.symm
      intro _
      apply condition_idle
      · rw [two.value _ (by decide), noThen]
        rfl
      · rw [two.value _ (by decide), noElse]
        rfl

end follow

variable {check check' : Check} {path : Path} {branches limited : Bool}

theorem unions_accept {fields : Fields} {value : Subject} (ok : plain (.obj fields) = true)
    (polar : polarityFields true branches limited fields = true)
    (forward : ∀ child, Inside fields child → polarityOk true child = true →
      Weaker check check' value path child (normalizeOpenAIResponsesSchemaNode child))
    (anyOf : anyOfOk check fields value path = true) (oneOf : oneOfOk check fields value path = true) :
    anyOfOk check' (rebuildNode fields (normalizeFields fields)) value path = true ∧
      oneOfOk check' (rebuildNode fields (normalizeFields fields)) value path = true := by
  have result := node_anyOf (plain_listed ok)
  rw [oneOfOk, node_oneOf (plain_listed ok)]
  refine ⟨?_,rfl⟩
  -- A branch that accepts the value is still there.
  have kept : ∀ key items, (key = js "anyOf" ∨ key = js "oneOf") → arrayOf? fields key = some items →
      (∀ item ∈ items, ∃ items', arrayOf? (rebuildNode fields (normalizeFields fields)) (js "anyOf") = some items' ∧
        normalizeOpenAIResponsesSchemaNode item ∈ items') →
      (∃ item ∈ items, check item value path = true) →
      anyOfOk check' (rebuildNode fields (normalizeFields fields)) value path = true := by
    rintro key items which found moved ⟨item,mem,accepted⟩
    obtain ⟨items',there,mem'⟩ := moved item mem
    have isArrayKey : schemaArrayKeys.contains key = true := by
      rcases which with rfl | rfl <;> decide
    rw [anyOfOk, there]
    exact List.any_eq_true.mpr ⟨_,mem',forward item (inside_array ok found there mem mem')
      (polarity_arrayOf polar isArrayKey found item mem) _ _ (within_self _ _) accepted⟩
  cases one : arrayOf? fields (js "oneOf") with
  | some branches =>
    rw [one] at result
    rw [oneOfOk, one] at oneOf
    apply kept (js "oneOf") branches (.inr rfl) one
    · intro item mem
      exact ⟨_,result,List.mem_map_of_mem (List.mem_append_right _ mem)⟩
    · rw [beq_iff_eq] at oneOf
      apply List.countP_pos_iff.mp
      rw [oneOf]
      exact Nat.one_pos
  | none =>
    rw [one] at result
    cases own : arrayOf? fields (js "anyOf") with
    | none =>
      rw [own] at result
      rw [anyOfOk, result]
      rfl
    | some branches =>
      rw [own] at result
      rw [anyOfOk, own] at anyOf
      apply kept (js "anyOf") branches (.inl rfl) own
      · intro item mem
        exact ⟨_,result,List.mem_map_of_mem mem⟩
      · exact List.any_eq_true.mp anyOf

/-- Without a `oneOf` the branches are the same ones. -/
theorem unions_reject {fields : Fields} {value : Subject} (ok : plain (.obj fields) = true)
    (noUnion : arrayOf? fields (js "oneOf") = none) (polar : polarityFields false branches limited fields = true)
    (backward : ∀ child, Inside fields child → polarityOk false child = true →
      Weaker check' check value path (normalizeOpenAIResponsesSchemaNode child) child)
    (anyOf : anyOfOk check' (rebuildNode fields (normalizeFields fields)) value path = true) :
    anyOfOk check fields value path = true ∧ oneOfOk check fields value path = true := by
  have result := node_anyOf (plain_listed ok)
  rw [noUnion] at result
  rw [oneOfOk, noUnion]
  refine ⟨?_,rfl⟩
  rw [anyOfOk] at anyOf ⊢
  cases own : arrayOf? fields (js "anyOf") with
  | none => rfl
  | some branches =>
    rw [own] at result
    rw [result] at anyOf
    refine any_of_weaker (lists_restored ?_) (fun branch branch' step => step _ _ (within_self value path)) anyOf
    intro branch mem
    exact backward branch (inside_array ok own result mem (List.mem_map_of_mem mem))
      (polarity_arrayOf polar (by decide) own branch mem)

section validate
variable (rt : Runtime)

theorem validate_verdicts (fuel : Nat) (ctx : ValidationContext) : Verdicts (validateSchemaNode rt (fuel + 1) ctx) := by
  intro verdict value path
  rw [validateSchemaNode]

theorem validate_node {fields : Fields} (noReference : hasReference fields = false) (fuel : Nat) (ctx : ValidationContext)
    (value : Subject) (path : Path) : validateSchemaNode rt (fuel + 1) ctx (.obj fields) value path =
      validateKeywords rt (validateSchemaNode rt fuel ctx) fields value path := by
  rw [hasReference] at noReference
  rw [validateSchemaNode]
  split
  · rename_i ref found
    simp [found] at noReference
  · rfl

theorem empty_accepts (check : Check) (value : Subject) (path : Path) : validateKeywords rt check [] value path = true := by
  cases value with
  | none => rfl
  | some value => cases value <;> rfl

/-- By induction on the fuel; each node spends one of it, and its sub-schemas are less deep. -/
theorem sanitized_follows (fuel fuel' : Nat) (schema : Json) (ctx ctx' : ValidationContext) (value : Subject) (path : Path)
    (ok : plain schema = true) (enough : depth schema < fuel)
    (enough' : depth (normalizeOpenAIResponsesSchemaNode schema) < fuel') :
    (polarityOk true schema = true → validateSchemaNode rt fuel ctx schema value path = true →
      validateSchemaNode rt fuel' ctx' (normalizeOpenAIResponsesSchemaNode schema) value path = true) ∧
    (polarityOk false schema = true →
      validateSchemaNode rt fuel' ctx' (normalizeOpenAIResponsesSchemaNode schema) value path = true →
      validateSchemaNode rt fuel ctx schema value path = true) := by
  induction fuel generalizing fuel' schema value path with
  | zero => omega
  | succ fuel ih =>
    cases fuel' with
    | zero => omega
    | succ fuel' =>
      cases schema with
      | obj fields =>
        rw [normalizeOpenAIResponsesSchemaNode, finished_rebuilt (plain_listed ok)] at enough' ⊢
        split at enough'
        · rename_i empty
          rw [if_pos empty, empty]
          constructor
          · intro _ _
            rw [validateSchemaNode]
          · intro _ _
            rw [validate_node rt rfl]
            exact empty_accepts rt _ _ _
        · rename_i some'
          rw [if_neg some']
          have deep : 0 < depth (.obj fields) := by rw [depth]; omega
          have deep' : 0 < depth (.obj (rebuildNode fields (normalizeFields fields))) := by rw [depth]; omega
          obtain ⟨rest,rfl⟩ : ∃ rest, fuel = rest + 1 := ⟨fuel - 1,by omega⟩
          obtain ⟨rest',rfl⟩ : ∃ rest, fuel' = rest + 1 := ⟨fuel' - 1,by omega⟩
          have both := fun child (inside : Inside fields child) inner place =>
            ih (rest' + 1) child inner place inside.1 (by have := inside.2.1; omega) (by have := inside.2.2; omega)
          have forward : ∀ child, Inside fields child → polarityOk true child = true →
              Weaker (validateSchemaNode rt (rest + 1) ctx) (validateSchemaNode rt (rest' + 1) ctx') value path child
                (normalizeOpenAIResponsesSchemaNode child) :=
            fun child inside polar inner place _ => (both child inside inner place).1 polar
          have backward : ∀ child, Inside fields child → polarityOk false child = true →
              Weaker (validateSchemaNode rt (rest' + 1) ctx') (validateSchemaNode rt (rest + 1) ctx) value path
                (normalizeOpenAIResponsesSchemaNode child) child :=
            fun child inside polar inner place _ => (both child inside inner place).2 polar
          have verdicts := validate_verdicts rt rest ctx
          have verdicts' := validate_verdicts rt rest' ctx'
          have original := replaced_self fields
          have node := replaced_node ok
          constructor
          · intro polar holds
            rw [polarityOk, Bool.and_eq_true, Bool.and_eq_true, Bool.not_eq_true'] at polar
            obtain ⟨⟨noReference,_⟩,polar⟩ := polar
            rw [validate_node rt noReference] at holds
            rw [validate_node rt ((node_reference (plain_listed ok)).trans noReference)]
            exact keywords_weaker (node_follows ok original node polar forward backward verdicts verdicts' rfl rfl
              (unions_accept ok polar forward)) holds
          · intro polar holds
            rw [polarityOk, Bool.and_eq_true, Bool.and_eq_true, Bool.not_eq_true', Bool.false_or,
              Option.isNone_iff_eq_none] at polar
            obtain ⟨⟨noReference,noUnion⟩,polar⟩ := polar
            rw [validate_node rt ((node_reference (plain_listed ok)).trans noReference)] at holds
            rw [validate_node rt noReference]
            exact keywords_weaker (node_follows ok node original polar backward forward verdicts' verdicts rfl rfl
              (fun anyOf _ => unions_reject ok noUnion polar backward anyOf)) holds
      | bool verdict =>
        rw [normalizeOpenAIResponsesSchemaNode, validateSchemaNode, validateSchemaNode]
        · exact ⟨fun _ same => same,fun _ same => same⟩
        all_goals intro fields is; contradiction
      | _ => simp [normalizeOpenAIResponsesSchemaNode, validateSchemaNode]

end validate

theorem enough_deep (schema value : Json) : depth schema < enoughFuel schema value := by
  rw [enoughFuel]
  omega

theorem sanitize_keeps_calls (rt : Runtime) (schema : Json) (ok : plain schema = true)
    (polar : polarityOk true schema = true) :
    (∀ value, isJsonSchemaValueValid rt schema value = true →
      isJsonSchemaValueValid rt (sanitizeSchemaForOpenAIResponses schema) value = true) ∧
    ready (sanitizeSchemaForOpenAIResponses schema) = true ∧
    sanitizeSchemaForOpenAIResponses (sanitizeSchemaForOpenAIResponses schema) = sanitizeSchemaForOpenAIResponses schema := by
  refine ⟨?_,node_ready _ schema (Nat.le_refl _) ok,node_fixed _ schema (Nat.le_refl _) ok⟩
  intro value
  exact (sanitized_follows rt _ _ schema _ _ (some value) [] ok (enough_deep _ _) (enough_deep _ _)).1 polar

/- The natural number of a text of digits. -/
def naturalOf (text : JsString) : Nat := text.foldl (fun n c => n * 10 + (c.toNat - 48)) 0

theorem natural_digits (fuel n : Nat) (enough : n < fuel) : naturalOf (decimalFuel fuel n) = n := decimalFuel_value fuel n enough

/- A host for natural numbers and patterns without special characters. -/
def naturalRuntime : Runtime where
  regex := fun pattern => some fun text => text.tails.any fun rest => startsWith rest pattern
  isInteger := fun text => text.all isDigit
  less := fun a b => naturalOf a < naturalOf b
  isMultiple := fun a b => naturalOf a % naturalOf b = 0
  less_count := by
    intro m n bound le below
    rw [decide_eq_true_eq, decimal, natural_digits _ _ (Nat.lt_succ_self _)] at below ⊢
    omega

theorem sanitize_keeps_a_call :
    isJsonSchemaValueValid naturalRuntime (.obj [(js "oneOf", .arr [.obj [(js "type", .str (js "integer"))],
        .obj [(js "minimum", .num (js "3"))]])]) (.num (js "1")) = true ∧
    isJsonSchemaValueValid naturalRuntime (sanitizeSchemaForOpenAIResponses
      (.obj [(js "oneOf", .arr [.obj [(js "type", .str (js "integer"))], .obj [(js "minimum", .num (js "3"))]])]))
      (.num (js "1")) = true := by
  have before : isJsonSchemaValueValid naturalRuntime (.obj [(js "oneOf", .arr [.obj [(js "type", .str (js "integer"))],
      .obj [(js "minimum", .num (js "3"))]])]) (.num (js "1")) = true := by decide +kernel
  exact ⟨before,(sanitize_keeps_calls naturalRuntime _ (by decide +kernel) (by decide +kernel)).1 _ before⟩

/-- Both branches of the excluded union accept the value, so `oneOf` does not; and a property that
    cannot be assigned is not kept. -/
theorem sanitize_rejects_calls :
    (isJsonSchemaValueValid naturalRuntime (.obj [(js "not", .obj [(js "oneOf", .arr [.bool true, .bool true])])])
        (.num (js "1")) = true ∧
      isJsonSchemaValueValid naturalRuntime (sanitizeSchemaForOpenAIResponses
        (.obj [(js "not", .obj [(js "oneOf", .arr [.bool true, .bool true])])])) (.num (js "1")) = false) ∧
    isJsonSchemaValueValid naturalRuntime (.obj [(js "properties", .obj [(js "__proto__", .obj [])]),
        (js "additionalProperties", .bool false)]) (.obj [(js "__proto__", .num (js "1"))]) = true ∧
      isJsonSchemaValueValid naturalRuntime (sanitizeSchemaForOpenAIResponses
        (.obj [(js "properties", .obj [(js "__proto__", .obj [])]), (js "additionalProperties", .bool false)]))
        (.obj [(js "__proto__", .num (js "1"))]) = false := by decide +kernel

end JsonSchema
