import OpenAgents.Schema.OpenAIResponses

/- What every schema position of a sanitized schema holds, and that sanitizing it again changes
   nothing. -/
namespace JsonSchema
open JsText JsJson JsObject

mutual

/- No union is left, and an object type has `properties`, at each position of a schema. -/
def ready : Json → Bool
  | .obj fields =>
      (arrayOf? fields (js "oneOf")).isNone &&
        (!declaresObjectType (getField fields (js "type")) || hasField fields (js "properties")) && readyFields fields
  | _ => true

def readyFields : Fields → Bool
  | [] => true
  | (key, .obj child) :: rest =>
      (if schemaMapKeys.contains key then readyMap child
        else !schemaValueKeys.contains key || ready (.obj child)) && readyFields rest
  | (key, .arr child) :: rest => (!schemaArrayKeys.contains key || readyArray child) && readyFields rest
  | _ :: rest => readyFields rest

def readyArray : List Json → Bool
  | [] => true
  | item :: rest => ready item && readyArray rest

def readyMap : Fields → Bool
  | [] => true
  | (_, child) :: rest => ready child && readyMap rest

end

def readyValue (key : JsString) : Json → Bool
  | .obj child =>
      if schemaMapKeys.contains key then readyMap child else !schemaValueKeys.contains key || ready (.obj child)
  | .arr child => !schemaArrayKeys.contains key || readyArray child
  | _ => true

theorem readyFields_eq (fields : Fields) : readyFields fields = fields.all fun field => readyValue field.1 field.2 := by
  induction fields with
  | nil => rw [readyFields]; rfl
  | cons field rest ih =>
    obtain ⟨key,child⟩ := field
    cases child <;> simp [readyFields, readyValue, ih]

theorem readyArray_eq (items : List Json) : readyArray items = items.all ready := by
  induction items with
  | nil => rw [readyArray]; rfl
  | cons item rest ih => rw [readyArray, ih, List.all_cons]

theorem readyMap_eq (fields : Fields) : readyMap fields = fields.all fun field => ready field.2 := by
  induction fields with
  | nil => rw [readyMap]; rfl
  | cons field rest ih => rw [readyMap, ih, List.all_cons]

theorem readyValue_array {key : JsString} (isArrayKey : schemaArrayKeys.contains key = true) (items : List Json) :
    readyValue key (.arr items) = items.all ready := by
  rw [readyValue, isArrayKey, readyArray_eq]
  rfl

variable {field : JsString × Json} {child : Json}

theorem mem_finished {fields normalized : Fields} (listed : Listed (normalized.filter fun field => !isUnion field))
    (mem : field ∈ rebuildNode fields normalized) :
    (field ∈ normalized ∧ isUnion field = false) ∨
      (∃ rewritten, arrayOf? normalized (js "oneOf") = some rewritten ∧ field = (js "anyOf",
        .arr ((arrayOf? (assignAll (normalized.filter fun field => !isUnion field)) (js "anyOf")).getD [] ++ rewritten))) ∨
      field = (js "properties", .obj []) := by
  have united : field ∈ unite normalized (assignAll (normalized.filter fun field => !isUnion field)) →
      (field ∈ normalized ∧ isUnion field = false) ∨ (∃ rewritten, arrayOf? normalized (js "oneOf") = some rewritten ∧
        field = (js "anyOf",
          .arr ((arrayOf? (assignAll (normalized.filter fun field => !isUnion field)) (js "anyOf")).getD [] ++ rewritten))) := by
    intro inside
    rw [unite] at inside
    split at inside
    · rename_i rewritten union
      rcases mem_assign inside with old | new
      · rw [assignAll_listed listed, List.mem_filter, Bool.not_eq_true'] at old
        exact .inl old
      · exact .inr ⟨rewritten,union,new⟩
    · rw [assignAll_listed listed, List.mem_filter, Bool.not_eq_true'] at inside
      exact .inl inside
  rw [rebuildNode_eq] at mem
  dsimp only at mem
  split at mem
  · rcases mem_assign mem with old | new
    · exact (united old).imp id .inl
    · exact .inr (.inr new)
  · exact (united mem).imp id .inl

theorem finished_listed {fields : Fields} (listed : Listed fields) : Listed (rebuildNode fields (normalizeFields fields)) := by
  have kept : Listed (assignAll ((normalizeFields fields).filter fun field => !isUnion field)) := by
    rw [assignAll_listed (normalized_listed listed)]
    exact normalized_listed listed
  have united : Listed (unite (normalizeFields fields)
      (assignAll ((normalizeFields fields).filter fun field => !isUnion field))) := by
    rw [unite]
    split
    · exact assign_listed kept _ (by decide) (by decide +kernel)
    · exact kept
  rw [rebuildNode_eq]
  dsimp only
  split
  · exact assign_listed united _ (by decide) (by decide +kernel)
  · exact united

theorem supplies_not {fields : Fields} :
    (!declaresObjectType (getField fields (js "type")) || hasField fields (js "properties")) = true ↔
      suppliesProperties fields = false := by
  rw [suppliesProperties]
  cases declaresObjectType (getField fields (js "type")) <;> cases hasField fields (js "properties") <;> simp

theorem finished_typed {fields : Fields} (listed : Listed fields) :
    (!declaresObjectType (getField (rebuildNode fields (normalizeFields fields)) (js "type")) ||
      hasField (rebuildNode fields (normalizeFields fields)) (js "properties")) = true := by
  have type : getField (rebuildNode fields (normalizeFields fields)) (js "type") = getField fields (js "type") := by
    rw [get_node listed (by decide) (by decide) (by decide)]
    cases getField fields (js "type") with
    | none => rfl
    | some value => cases value <;> rfl
  rw [type, Bool.or_eq_true, Bool.not_eq_true']
  cases declares : declaresObjectType (getField fields (js "type")) with
  | false => exact .inl rfl
  | true =>
    right
    rw [has_iff, ← not_not (a := js "properties" ∈ _), ← get_none_iff]
    intro absent
    rw [rebuildNode_eq] at absent
    dsimp only at absent
    split at absent
    · rw [get_assign _ (by decide), if_pos rfl] at absent
      contradiction
    · rename_i supplied
      rw [get_unite _ _ (by decide), get_other listed (by decide), Option.map_eq_none_iff, get_none_iff, ← has_iff] at absent
      simp [suppliesProperties, declares, absent] at supplied

theorem plain_child {fields : Fields} (ok : plain (.obj fields) = true) {key : JsString} (mem : (key, child) ∈ fields) : plain child = true := plain_fields ok (key, child) mem

/-- By induction on the depth: what is put in place of a value is ready. -/
theorem value_ready {key : JsString} (ok : plain child = true)
    (ih : ∀ schema, depth schema ≤ depth child → plain schema = true → ready (normalizeOpenAIResponsesSchemaNode schema) = true) :
    readyValue key (normalizeValue key child) = true := by
  cases child with
  | obj inner =>
    rw [normalizeValue]
    split
    · rename_i isMap
      rw [readyValue, if_pos isMap, readyMap_eq, normalizeMap_listed (plain_listed ok), List.all_eq_true]
      intro field mem
      obtain ⟨own,inside,same⟩ := List.mem_map.mp mem
      rw [← same]
      apply ih
      · have below := depth_field inside
        rw [depth]
        omega
      · exact plain_fields ok own inside
    · rename_i noMap
      split
      · have done := ih (.obj inner) (Nat.le_refl _) ok
        rw [normalizeOpenAIResponsesSchemaNode] at done ⊢
        split
        · rfl
        · rename_i some'
          rw [if_neg some'] at done
          rw [readyValue, if_neg noMap, done, Bool.or_true]
      · rename_i noValue
        rw [Bool.not_eq_true] at noValue
        rw [readyValue, if_neg noMap, noValue]
        rfl
  | arr inner =>
    rw [normalizeValue]
    split
    · rename_i isArrayKey
      rw [readyValue_array isArrayKey, normalizeArray_eq, List.all_map, List.all_eq_true]
      intro item mem
      apply ih
      · have below := depth_item mem
        rw [depth]
        omega
      · exact plain_items ok item mem
    · rename_i noArray
      rw [Bool.not_eq_true] at noArray
      rw [readyValue, noArray]
      rfl
  | _ => rfl

theorem node_ready (bound : Nat) (schema : Json) (small : depth schema ≤ bound) (ok : plain schema = true) :
    ready (normalizeOpenAIResponsesSchemaNode schema) = true := by
  induction bound generalizing schema with
  | zero =>
    cases schema with
    | obj fields =>
      rw [depth] at small
      omega
    | _ => rfl
  | succ bound ih =>
    cases schema with
    | obj fields =>
      have listed := plain_listed ok
      rw [normalizeOpenAIResponsesSchemaNode, finished_rebuilt listed]
      split
      · rfl
      · have inner : ∀ key child, (key, child) ∈ fields → readyValue key (normalizeValue key child) = true := by
          intro key child mem
          have below : depth child ≤ depthFields fields := depth_field mem
          rw [depth] at small
          apply value_ready (plain_child ok mem)
          intro schema shallow plainSchema
          exact ih schema (by omega) plainSchema
        rw [ready, node_oneOf listed, finished_typed listed, readyFields_eq]
        simp only [Option.isNone_none, Bool.true_and, List.all_eq_true]
        intro field mem
        have original : ∀ key child, (key, child) ∈ normalizeFields fields → readyValue key child = true := by
          intro key child inside
          rw [normalizeFields_eq] at inside
          obtain ⟨own,here,same⟩ := List.mem_map.mp inside
          cases same
          exact inner own.1 own.2 here
        rcases mem_finished (normalized_listed listed) mem with old | ⟨rewritten,union,new⟩ | new
        · exact original field.1 field.2 old.1
        · have second := original (js "oneOf") (.arr rewritten) (by
            rw [arrayOf?] at union
            split at union
            · rename_i found
              cases union
              exact mem_of_get found
            · contradiction)
          rw [readyValue_array (by decide)] at second
          have first : (((arrayOf? ((normalizeFields fields).filter fun field => !isUnion field) (js "anyOf")).getD []).all
              ready) = true := by
            rw [arrayOf?]
            split
            · rename_i items found
              have there := original (js "anyOf") (.arr items) (List.mem_of_mem_filter (mem_of_get found))
              rw [readyValue_array (by decide)] at there
              exact there
            · rfl
          have anyKey : schemaArrayKeys.contains (js "anyOf") = true := by decide
          rw [new]
          dsimp only
          rw [readyValue_array anyKey, assignAll_listed (normalized_listed listed), List.all_append, first, second]
          rfl
        · rw [new]
          rfl
    | _ => rfl

/-- What is put in place of a value stays as it is. -/
theorem value_fixed {key : JsString} (ok : plain child = true)
    (ih : ∀ schema, depth schema ≤ depth child → plain schema = true →
      normalizeOpenAIResponsesSchemaNode (normalizeOpenAIResponsesSchemaNode schema) =
        normalizeOpenAIResponsesSchemaNode schema) :
    normalizeValue key (normalizeValue key child) = normalizeValue key child := by
  cases child with
  | obj inner =>
    rw [normalizeValue]
    split
    · rename_i isMap
      have listed := plain_listed ok
      rw [normalizeMap_listed listed, normalizeValue, if_pos isMap, normalizeMap_listed, List.map_map]
      · congr 1
        apply List.map_congr_left
        intro field mem
        have below := depth_field mem
        have fixed := ih field.2 (by rw [depth]; omega) (plain_fields ok field mem)
        simp only [Function.comp_apply, fixed]
      · apply listed_of_keys _ listed
        rw [List.map_map]
        rfl
    · rename_i noMap
      split
      · rename_i isValue
        have fixed := ih (.obj inner) (Nat.le_refl _) ok
        cases done : normalizeOpenAIResponsesSchemaNode (.obj inner) with
        | obj result =>
          rw [done] at fixed
          rw [normalizeValue, if_neg noMap, if_pos isValue, fixed]
        | arr items =>
          rw [normalizeOpenAIResponsesSchemaNode] at done
          split at done <;> contradiction
        | _ => rfl
      · rename_i noValue
        rw [normalizeValue, if_neg noMap, if_neg noValue]
  | arr inner =>
    rw [normalizeValue]
    split
    · rename_i isArrayKey
      rw [normalizeArray_eq, normalizeValue, if_pos isArrayKey, normalizeArray_eq, List.map_map]
      congr 1
      apply List.map_congr_left
      intro item mem
      have below := depth_item mem
      exact ih item (by rw [depth]; omega) (plain_items ok item mem)
    · rename_i noArray
      rw [normalizeValue, if_neg noArray]
  | _ => rfl

theorem finished_ne_nil {fields : Fields} (some' : fields ≠ []) (listed : Listed fields) :
    rebuildNode fields (normalizeFields fields) ≠ [] := by
  have kept := normalized_listed listed
  rw [rebuildNode_eq, normalizeFields_eq] at *
  dsimp only
  split
  · exact assign_ne_nil _ (by decide)
  · rw [unite]
    split
    · exact assign_ne_nil _ (by decide)
    · rename_i noUnion
      rw [assignAll_listed kept]
      intro empty
      cases fields with
      | nil => contradiction
      | cons field rest =>
        have union := List.filter_eq_nil_iff.mp empty (field.1, normalizeValue field.1 field.2) (by simp)
        simp only [isUnion, Bool.not_eq_true', Bool.not_eq_false, Bool.and_eq_true, beq_iff_eq] at union
        obtain ⟨key,array⟩ := union
        rw [List.map_cons, arrayOf?, get_cons, if_pos key] at noUnion
        cases here : normalizeValue field.1 field.2 with
        | arr items => simp [here] at noUnion
        | _ => simp [here, isArray] at array

theorem array_fixed {key : JsString} (isArrayKey : schemaArrayKeys.contains key = true) {items : List Json}
    (fixed : normalizeValue key (.arr items) = .arr items) : items.map normalizeOpenAIResponsesSchemaNode = items := by
  rw [normalizeValue, if_pos isArrayKey, normalizeArray_eq, Json.arr.injEq] at fixed
  exact fixed

theorem finished_fixed {fields : Fields} (listed : Listed fields)
    (original : ∀ key child, (key, child) ∈ normalizeFields fields → normalizeValue key child = child)
    (mem : field ∈ rebuildNode fields (normalizeFields fields)) : normalizeValue field.1 field.2 = field.2 := by
  have anyKey : schemaArrayKeys.contains (js "anyOf") = true := by decide
  rcases mem_finished (normalized_listed listed) mem with old | ⟨rewritten,union,new⟩ | new
  · exact original field.1 field.2 old.1
  · have second := array_fixed (by decide) (original (js "oneOf") (.arr rewritten) (by
      rw [arrayOf?] at union
      split at union
      · rename_i found
        cases union
        exact mem_of_get found
      · contradiction))
    have first : ((arrayOf? ((normalizeFields fields).filter fun field => !isUnion field) (js "anyOf")).getD []).map
        normalizeOpenAIResponsesSchemaNode =
          (arrayOf? ((normalizeFields fields).filter fun field => !isUnion field) (js "anyOf")).getD [] := by
      rw [arrayOf?]
      split
      · rename_i items found
        exact array_fixed anyKey (original (js "anyOf") (.arr items) (List.mem_of_mem_filter (mem_of_get found)))
      · rfl
    rw [new]
    dsimp only
    rw [normalizeValue, if_pos anyKey, normalizeArray_eq, assignAll_listed (normalized_listed listed), List.map_append,
      first, second]
  · rw [new]
    rfl

theorem node_fixed (bound : Nat) (schema : Json) (small : depth schema ≤ bound) (ok : plain schema = true) :
    normalizeOpenAIResponsesSchemaNode (normalizeOpenAIResponsesSchemaNode schema) =
      normalizeOpenAIResponsesSchemaNode schema := by
  induction bound generalizing schema with
  | zero =>
    cases schema with
    | obj fields =>
      rw [depth] at small
      omega
    | _ => rfl
  | succ bound ih =>
    cases schema with
    | obj fields =>
      have prepared := node_ready (bound + 1) (.obj fields) small ok
      have listed := plain_listed ok
      rw [normalizeOpenAIResponsesSchemaNode, finished_rebuilt listed] at prepared ⊢
      split
      · rfl
      · rename_i some'
        rw [if_neg some', ready, Bool.and_eq_true, Bool.and_eq_true, Option.isNone_iff_eq_none] at prepared
        obtain ⟨⟨noUnion,typed⟩,_⟩ := prepared
        rw [supplies_not] at typed
        have original : ∀ key child, (key, child) ∈ normalizeFields fields → normalizeValue key child = child := by
          intro key child mem
          rw [normalizeFields_eq] at mem
          obtain ⟨own,inside,same⟩ := List.mem_map.mp mem
          cases same
          have below := depth_field inside
          rw [depth] at small
          apply value_fixed (plain_fields ok own inside)
          intro schema shallow plainSchema
          exact ih schema (by omega) plainSchema
        have same : normalizeFields (rebuildNode fields (normalizeFields fields)) =
            rebuildNode fields (normalizeFields fields) := by
          rw [normalizeFields_eq]
          refine (List.map_congr_left ?_).trans (List.map_id _)
          intro field mem
          rw [finished_fixed listed original mem]
          rfl
        rw [normalizeOpenAIResponsesSchemaNode, if_neg (finished_ne_nil some' listed),
          finished_rebuilt (finished_listed listed), same, finish_fixed (finished_listed listed) noUnion typed]
    | _ => rfl

end JsonSchema
