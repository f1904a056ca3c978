import OpenAgents.Schema.ValidatorIssues
import OpenAgents.Schema.References

/- The verdict of the validator and its issues: each check that has enough fuel answers, what it answers does
   not depend on the fuel, and it accepts exactly when it adds no issue. -/
namespace JsonSchemaIssues
open JsText JsJson JsObject JsonSchema

/- Both steps answer alike: the verdict, and issues unless that is positive. -/
def Answers (step step' : Step) (verdict : Bool) : Prop :=
  ∀ issues, ∃ new, step issues = some (verdict, issues ++ new) ∧ step' issues = some (verdict, issues ++ new) ∧
    (verdict = true ↔ new = [])

section steps
variable {path : Path} {message keyword : JsString}

theorem passed_answers : Answers passed passed true := by
  intro issues
  exact ⟨[],by rw [passed, List.append_nil],by rw [passed, List.append_nil],by simp⟩

theorem failed_answers : Answers (failed path message keyword) (failed path message keyword) false := by
  intro issues
  exact ⟨[⟨path,message,keyword,none⟩],rfl,rfl,by simp⟩

theorem expect_answers (accepted : Bool) :
    Answers (expect accepted path message keyword) (expect accepted path message keyword) accepted := by
  cases accepted with
  | true => exact passed_answers
  | false => exact failed_answers

theorem both_answers {first first' second second' : Step} {accepted accepted' : Bool} (front : Answers first first' accepted)
    (back : Answers second second' accepted') : Answers (both first second) (both first' second') (accepted && accepted') := by
  intro issues
  obtain ⟨new,one,one',none'⟩ := front issues
  obtain ⟨later,two,two',none''⟩ := back (issues ++ new)
  refine ⟨new ++ later,?_,?_,?_⟩
  · rw [both, one]
    dsimp only
    rw [two, Bool.and_comm, List.append_assoc]
  · rw [both, one']
    dsimp only
    rw [two', Bool.and_comm, List.append_assoc]
  · rw [Bool.and_eq_true, none', none'', List.append_eq_nil_iff]

theorem each_answers {α : Type} {items : List α} {step step' : α → Step} {verdict : α → Bool}
    (all : ∀ item ∈ items, Answers (step item) (step' item) (verdict item)) :
    Answers (each items step) (each items step') (items.all verdict) := by
  induction items with
  | nil => exact passed_answers
  | cons item rest ih =>
    rw [List.all_cons]
    exact both_answers (all item List.mem_cons_self) (ih fun later mem => all later (List.mem_cons_of_mem _ mem))

/- A step that is left out under a condition. -/
theorem skipped_answers {step step' : Step} {verdict : Bool} (skip : Bool) (answers : Answers step step' verdict) :
    Answers (if skip then passed else step) (if skip then passed else step') (skip || verdict) := by
  cases skip with
  | true => exact passed_answers
  | false => exact answers

theorem asked_answers {step step' : Step} {verdict : Bool} (asked : Bool) (answers : Answers step step' verdict) :
    Answers (if asked then step else passed) (if asked then step' else passed) (!asked || verdict) := by
  cases asked with
  | true => exact answers
  | false => exact passed_answers

theorem attempt_answers {step step' : Step} {verdict : Bool} (answers : Answers step step' verdict) :
    ∃ own, attempt step = some (verdict, own) ∧ attempt step' = some (verdict, own) := by
  obtain ⟨new,one,one',_⟩ := answers []
  exact ⟨new,one,one'⟩

theorem bounded_answers (schema : Fields) (keyword before after : JsString) (past : JsString → Bool) :
    Answers (bounded schema keyword before after past path) (bounded schema keyword before after past path)
      (!(numberOf? schema keyword).any past) := by
  rw [bounded]
  cases numberOf? schema keyword with
  | none => exact passed_answers
  | some bound => exact expect_answers _

theorem within_answers (rt : Runtime) (schema : Fields) (lowest highest before before' after after' : JsString) (length : Nat) :
    Answers
      (both (bounded schema lowest before after (rt.less (decimal length)) path)
        (bounded schema highest before' after' (fun bound => rt.less bound (decimal length)) path))
      (both (bounded schema lowest before after (rt.less (decimal length)) path)
        (bounded schema highest before' after' (fun bound => rt.less bound (decimal length)) path))
      (withinBounds rt schema lowest highest length) :=
  both_answers (bounded_answers _ _ _ _ _) (bounded_answers _ _ _ _ _)

theorem exclusive_answers (schema : Fields) (keyword inclusive before : JsString) (past : JsString → Bool) :
    Answers (exclusive schema keyword inclusive before past path) (exclusive schema keyword inclusive before past path)
      (!(isTrue? schema keyword && (numberOf? schema inclusive).any past)) := by
  rw [exclusive]
  cases numberOf? schema inclusive with
  | none =>
    rw [Option.any_none, Bool.and_false]
    exact passed_answers
  | some bound => exact expect_answers _

end steps

/- Every check of a value inside the schema, made of the value or inside it, answers. -/
def Agree (check check' : Checker) (verdict : Check) (schema : Fields) (value : Subject) (path : Path) : Prop :=
  ∀ child, Part (.obj schema) child → depth child < depth (.obj schema) → ∀ inner place, Within value path inner place →
    Answers (check child inner place) (check' child inner place) (verdict child inner place)

section keywords
variable {rt : Runtime} {check check' : Checker} {verdict : Check} {schema : Fields} {path : Path}

section objects
variable {value : Fields}

theorem required_answers : Answers (required schema value path) (required schema value path) (requiredOk schema value) := by
  rw [required, requiredOk]
  cases getField schema (js "required") with
  | none => exact passed_answers
  | some keys =>
    cases keys with
    | arr items => exact asked_answers _ (each_answers fun key _ => expect_answers _)
    | _ => exact passed_answers

theorem properties_answers (agree : Agree check check' verdict schema (some (.obj value)) path) :
    Answers (properties check schema value path) (properties check' schema value path) (propertiesOk verdict schema value path) := by
  refine each_answers fun field mem => ?_
  dsimp only
  cases found : getField value field.1 with
  | some item => exact agree _ (part_map mem) (depth_map mem) _ _ (within_get found)
  | none => exact asked_answers _ (agree _ (part_map mem) (depth_map mem) _ _ within_inherited)

theorem propertyNames_answers (agree : Agree check check' verdict schema (some (.obj value)) path) :
    Answers (propertyNames check schema value path) (propertyNames check' schema value path)
      (propertyNamesOk verdict schema value path) := by
  rw [propertyNames, propertyNames, propertyNamesOk]
  cases names : getField schema (js "propertyNames") with
  | none => exact passed_answers
  | some names' => exact each_answers fun field _ => agree _ (part_get names) (depth_get names) _ _ (within_key field.1)

theorem patternProperties_answers (agree : Agree check check' verdict schema (some (.obj value)) path) :
    Answers (patternProperties rt check schema value path) (patternProperties rt check' schema value path)
      (patternPropertiesOk rt verdict schema value path) := by
  refine each_answers fun field mem => ?_
  dsimp only
  cases rt.regex field.1 with
  | none => exact failed_answers
  | some test =>
    refine each_answers fun item inside => ?_
    exact asked_answers _ (agree _ (part_map mem) (depth_map mem) _ _ (within_field inside))

theorem dependentRequired_answers :
    Answers (dependentRequired schema value path) (dependentRequired schema value path) (dependentRequiredOk schema value) := by
  refine each_answers fun field _ => ?_
  obtain ⟨key,deps⟩ := field
  cases deps with
  | arr deps => exact asked_answers _ (each_answers fun dep _ => expect_answers _)
  | _ => exact passed_answers

theorem dependentSchemas_answers (agree : Agree check check' verdict schema (some (.obj value)) path) :
    Answers (dependentSchemas check schema value path) (dependentSchemas check' schema value path)
      (dependentSchemasOk verdict schema value path) :=
  each_answers fun _ mem => asked_answers _ (agree _ (part_map mem) (depth_map mem) _ _ (within_self _ _))

theorem additionalProperties_answers (agree : Agree check check' verdict schema (some (.obj value)) path) :
    Answers (additionalProperties rt check schema value path) (additionalProperties rt check' schema value path)
      (additionalPropertiesOk rt verdict schema value path) := by
  rw [additionalProperties, additionalProperties, additionalPropertiesOk]
  cases found : getField schema (js "additionalProperties") with
  | none => exact passed_answers
  | some additional =>
    have others : Answers
        (each value fun field => if isKnown rt schema field.1 then passed else check additional (some field.2) (path ++ [.name field.1]))
        (each value fun field => if isKnown rt schema field.1 then passed else check' additional (some field.2) (path ++ [.name field.1]))
        (value.all fun field => isKnown rt schema field.1 || verdict additional (some field.2) (path ++ [.name field.1])) :=
      each_answers fun field mem => skipped_answers _ (agree _ (part_get found) (depth_get found) _ _ (within_field mem))
    cases additional with
    | bool accepted =>
      cases accepted with
      | true => exact passed_answers
      | false => exact each_answers fun field _ => expect_answers _
    | _ => exact others

theorem objectKeywords_answers (agree : Agree check check' verdict schema (some (.obj value)) path) :
    Answers (validateObjectKeywords rt check schema value path) (validateObjectKeywords rt check' schema value path)
      (JsonSchema.validateObjectKeywords rt verdict schema value path) := by
  rw [JsonSchema.validateObjectKeywords, withinBounds, ← Bool.and_assoc]
  refine both_answers (both_answers ?_ (bounded_answers _ _ _ _ _)) (bounded_answers _ _ _ _ _)
  refine both_answers (both_answers (both_answers ?_ dependentRequired_answers) (dependentSchemas_answers agree))
    (additionalProperties_answers agree)
  exact both_answers (both_answers (both_answers required_answers (properties_answers agree)) (propertyNames_answers agree))
    (patternProperties_answers agree)

end objects

section arrays
variable {value : List Json}

theorem unique_answers (entries : List (Json × Nat)) :
    Answers (unique path entries) (unique path entries) (uniqueItems (entries.map Prod.fst)) := by
  induction entries with
  | nil => exact passed_answers
  | cons entry rest ih =>
    obtain ⟨item,i⟩ := entry
    have apart : (!(rest.map Prod.fst).any (areJsonValuesEqual item)) = rest.all fun later => !areJsonValuesEqual item later.1 := by
      rw [List.any_map, List.not_any_eq_all_not]
      rfl
    rw [List.map_cons, uniqueItems, apart]
    exact both_answers (each_answers fun later _ => expect_answers _) ih

theorem items_answers (agree : Agree check check' verdict schema (some (.arr value)) path) :
    Answers (items check schema value path) (items check' schema value path) (itemsOk verdict schema value path) := by
  have front : Answers
      (each (((arrayOf? schema (js "prefixItems")).getD []).zip value.zipIdx) fun pair =>
        check pair.1 (some pair.2.1) (path ++ [.index pair.2.2]))
      (each (((arrayOf? schema (js "prefixItems")).getD []).zip value.zipIdx) fun pair =>
        check' pair.1 (some pair.2.1) (path ++ [.index pair.2.2]))
      ((((arrayOf? schema (js "prefixItems")).getD []).zip value.zipIdx).all fun pair =>
        verdict pair.1 (some pair.2.1) (path ++ [.index pair.2.2])) := by
    refine each_answers fun pair mem => ?_
    obtain ⟨entry,place⟩ := pair
    obtain ⟨listed,inside⟩ := List.of_mem_zip mem
    cases found : arrayOf? schema (js "prefixItems") with
    | none => simp [found] at listed
    | some entries =>
      rw [found, Option.getD_some] at listed
      exact agree _ (part_array found listed) (depth_array found listed) _ _ (within_item inside)
  rw [items, items, itemsOk]
  cases found : getField schema (js "items") with
  | none => exact both_answers front passed_answers
  | some rest =>
    have others : ∀ n, Answers (each (value.zipIdx.drop n) fun entry => check rest (some entry.1) (path ++ [.index entry.2]))
        (each (value.zipIdx.drop n) fun entry => check' rest (some entry.1) (path ++ [.index entry.2]))
        (checkEach verdict rest (value.zipIdx.drop n) path) := fun n =>
      each_answers fun entry mem => agree _ (part_get found) (depth_get found) _ _ (within_item (List.mem_of_mem_drop mem))
    cases rest with
    | arr => exact failed_answers
    | _ => exact both_answers front (others _)

theorem containsCount_answers {contained : Json} {entries : List (Json × Nat)}
    (all : ∀ entry ∈ entries, Answers (check contained (some entry.1) (path ++ [.index entry.2]))
      (check' contained (some entry.1) (path ++ [.index entry.2])) (verdict contained (some entry.1) (path ++ [.index entry.2]))) :
    let found := some (entries.countP fun (item, i) => verdict contained (some item) (path ++ [.index i]))
    containsCount check contained path entries = found ∧ containsCount check' contained path entries = found := by
  induction entries with
  | nil => exact ⟨rfl,rfl⟩
  | cons entry rest ih =>
    obtain ⟨item,i⟩ := entry
    obtain ⟨own,one,one'⟩ := attempt_answers (all (item, i) List.mem_cons_self)
    obtain ⟨later,later'⟩ := ih fun other mem => all other (List.mem_cons_of_mem _ mem)
    dsimp only at one one' later later' ⊢
    rw [containsCount, containsCount, one, one', later, later', List.countP_cons]
    cases verdict contained (some item) (path ++ [.index i]) <;> exact ⟨rfl,rfl⟩

theorem contains_answers (agree : Agree check check' verdict schema (some (.arr value)) path) :
    Answers (contains rt check schema value path) (contains rt check' schema value path)
      (containsOk rt verdict schema value path) := by
  rw [contains, contains, containsOk]
  cases found : getField schema (js "contains") with
  | none => exact passed_answers
  | some contained =>
    intro issues
    have each' : ∀ entry ∈ value.zipIdx, Answers (check contained (some entry.1) (path ++ [.index entry.2]))
        (check' contained (some entry.1) (path ++ [.index entry.2])) (verdict contained (some entry.1) (path ++ [.index entry.2])) :=
      fun entry mem => agree _ (part_get found) (depth_get found) _ _ (within_item mem)
    obtain ⟨count,count'⟩ := containsCount_answers each'
    dsimp only
    rw [count, count']
    exact both_answers (expect_answers _) (bounded_answers _ _ _ _ _) issues

theorem arrayKeywords_answers (agree : Agree check check' verdict schema (some (.arr value)) path) :
    Answers (validateArrayKeywords rt check schema value path) (validateArrayKeywords rt check' schema value path)
      (JsonSchema.validateArrayKeywords rt verdict schema value path) := by
  have distinct := @unique_answers path value.zipIdx
  rw [List.zipIdx_map_fst] at distinct
  exact both_answers (both_answers (both_answers (within_answers rt schema _ _ _ _ _ _ _) (asked_answers _ distinct))
    (items_answers agree)) (contains_answers agree)

end arrays

theorem stringKeywords_answers (value : JsString) :
    Answers (validateStringKeywords rt schema value path) (validateStringKeywords rt schema value path)
      (JsonSchema.validateStringKeywords rt schema value) := by
  refine both_answers (within_answers rt schema _ _ _ _ _ _ _) ?_
  cases getField schema (js "pattern") with
  | none => exact passed_answers
  | some pattern =>
    cases pattern with
    | str pattern =>
      dsimp only
      cases rt.regex pattern with
      | some test => exact expect_answers _
      | none => exact failed_answers
    | _ => exact passed_answers

theorem numberKeywords_answers (value : JsString) :
    Answers (validateNumberKeywords rt schema value path) (validateNumberKeywords rt schema value path)
      (JsonSchema.validateNumberKeywords rt schema value) := by
  refine both_answers (both_answers (both_answers ?_ (exclusive_answers _ _ _ _ _)) (exclusive_answers _ _ _ _ _)) ?_
  · exact both_answers (both_answers (both_answers (bounded_answers _ _ _ _ _) (bounded_answers _ _ _ _ _))
      (bounded_answers _ _ _ _ _)) (bounded_answers _ _ _ _ _)
  · rw [bounded]
    cases numberOf? schema (js "multipleOf") with
    | none => exact passed_answers
    | some divisor =>
      have same : (!rt.less (decimal 0) divisor || rt.isMultiple value divisor) =
          !(rt.less (decimal 0) divisor && !rt.isMultiple value divisor) := by
        rw [Bool.not_and, Bool.not_not]
      dsimp only
      rw [same]
      exact expect_answers _

section subjects
variable {value : Subject}

theorem tally_answers {branches : List Json}
    (all : ∀ branch ∈ branches, Answers (check branch value path) (check' branch value path) (verdict branch value path)) :
    ∃ firstIssues, tally check value path branches = some (branches.countP fun branch => verdict branch value path, firstIssues) ∧
      tally check' value path branches = some (branches.countP fun branch => verdict branch value path, firstIssues) := by
  induction branches with
  | nil => exact ⟨none,rfl,rfl⟩
  | cons branch rest ih =>
    obtain ⟨own,one,one'⟩ := attempt_answers (all branch List.mem_cons_self)
    obtain ⟨firstIssues,later,later'⟩ := ih fun other mem => all other (List.mem_cons_of_mem _ mem)
    rw [tally, tally, one, one', later, later', List.countP_cons]
    cases verdict branch value path with
    | true => exact ⟨firstIssues,rfl,rfl⟩
    | false => exact ⟨some own,rfl,rfl⟩

theorem union_answers (agree : Agree check check' verdict schema value path) (keyword message : JsString) (accepts : Nat → Bool) :
    Answers (union check schema keyword message accepts value path) (union check' schema keyword message accepts value path)
      (match arrayOf? schema keyword with
        | some branches => accepts (branches.countP fun branch => verdict branch value path)
        | none => true) := by
  rw [union, union]
  cases found : arrayOf? schema keyword with
  | none => exact passed_answers
  | some branches =>
    intro issues
    have each' : ∀ branch ∈ branches, Answers (check branch value path) (check' branch value path) (verdict branch value path) :=
      fun branch mem => agree _ (part_array found mem) (depth_array found mem) _ _ (within_self value path)
    obtain ⟨firstIssues,one,one'⟩ := tally_answers each'
    dsimp only
    rw [one, one']
    dsimp only
    cases accepts (branches.countP fun branch => verdict branch value path) with
    | true => exact passed_answers issues
    | false =>
      rw [if_neg (by decide)]
      split
      · rename_i issue more
        split
        · exact ⟨issue :: more,rfl,rfl,by simp⟩
        · exact failed_answers issues
      · exact failed_answers issues

theorem allOf_answers (agree : Agree check check' verdict schema value path) :
    Answers (allOf check schema value path) (allOf check' schema value path) (allOfOk verdict schema value path) := by
  rw [allOf, allOf, allOfOk]
  cases found : arrayOf? schema (js "allOf") with
  | none => exact passed_answers
  | some branches =>
    exact each_answers fun branch mem => agree _ (part_array found mem) (depth_array found mem) _ _ (within_self value path)

theorem excluded_answers (agree : Agree check check' verdict schema value path) :
    Answers (excluded check schema value path) (excluded check' schema value path) (notOk verdict schema value path) := by
  rw [excluded, excluded, notOk]
  cases found : getField schema (js "not") with
  | none => exact passed_answers
  | some child =>
    intro issues
    obtain ⟨own,one,one'⟩ := attempt_answers (agree _ (part_get found) (depth_get found) _ _ (within_self value path))
    dsimp only
    rw [one, one']
    exact expect_answers _ issues

theorem condition_answers (agree : Agree check check' verdict schema value path) :
    Answers (condition check schema value path) (condition check' schema value path) (conditionOk verdict schema value path) := by
  rw [condition, condition, conditionOk]
  cases found : getField schema (js "if") with
  | none => exact passed_answers
  | some child =>
    intro issues
    obtain ⟨own,one,one'⟩ := attempt_answers (agree _ (part_get found) (depth_get found) _ _ (within_self value path))
    dsimp only
    rw [one, one']
    dsimp only
    cases chosen : getField schema (if verdict child value path then js "then" else js "else") with
    | none => exact passed_answers issues
    | some branch => exact agree _ (part_get chosen) (depth_get chosen) _ _ (within_self value path) issues

theorem kindKeywords_answers (agree : Agree check check' verdict schema value path) :
    Answers (kindKeywords rt check schema value path) (kindKeywords rt check' schema value path)
      (kindOk rt verdict schema value path) := by
  cases value with
  | none => exact passed_answers
  | some value =>
    cases value with
    | obj fields => exact objectKeywords_answers agree
    | arr items => exact arrayKeywords_answers agree
    | str text => exact stringKeywords_answers text
    | num text => exact numberKeywords_answers text
    | _ => exact passed_answers

theorem keywords_answers (agree : Agree check check' verdict schema value path) :
    Answers (validateKeywords rt check schema value path) (validateKeywords rt check' schema value path)
      (JsonSchema.validateKeywords rt verdict schema value path) := by
  have anyOf := union_answers agree (js "anyOf") (js "must match at least one schema") (fun matching => 0 < matching)
  have some' : (match arrayOf? schema (js "anyOf") with
      | some branches => decide (0 < branches.countP fun branch => verdict branch value path)
      | none => true) = anyOfOk verdict schema value path := by
    rw [anyOfOk]
    cases arrayOf? schema (js "anyOf") with
    | none => rfl
    | some branches =>
      rw [Bool.eq_iff_iff, decide_eq_true_eq, List.countP_pos_iff, List.any_eq_true]
  rw [some'] at anyOf
  have oneOf := union_answers agree (js "oneOf") (js "must match exactly one schema") (fun matching => matching == 1)
  rw [validateKeywords, validateKeywords, JsonSchema.validateKeywords]
  split
  · exact passed_answers
  · cases typed : typeOk rt schema value with
    | false =>
      rw [if_neg (by decide)]
      simp only [Bool.false_and]
      exact fun issues => ⟨_,rfl,rfl,by simp⟩
    | true =>
      rw [if_pos rfl, Bool.true_and]
      refine both_answers (both_answers (both_answers (both_answers ?_ (allOf_answers agree)) (excluded_answers agree))
        (condition_answers agree)) (kindKeywords_answers agree)
      exact both_answers (both_answers (both_answers (expect_answers _) (expect_answers _)) anyOf) oneOf

end subjects

end keywords

/-- By induction on the fuel. A sub-schema is less deep, and following a reference uses one up. -/
theorem node_answers (rt : Runtime) (root : Json) (fuel fuel' : Nat) {ctx : ValidationContext} (here : ctx.root = root)
    {schema : Json} (inside : Part root schema) {value : Subject} {path : Path} (enough : Enough root ctx schema value path fuel)
    (enough' : Enough root ctx schema value path fuel') :
    Answers (validateSchemaNode rt fuel ctx schema value path) (validateSchemaNode rt fuel' ctx schema value path)
      (JsonSchema.validateSchemaNode rt fuel ctx schema value path) := by
  induction fuel generalizing fuel' ctx schema value path with
  | zero => exact absurd enough (Nat.not_lt_zero _)
  | succ fuel ih =>
    obtain ⟨fuel',rfl⟩ : ∃ rest, fuel' = rest + 1 := ⟨fuel' - 1,by rw [Enough] at enough'; omega⟩
    cases schema with
    | obj fields =>
      have agree : Agree (validateSchemaNode rt fuel ctx) (validateSchemaNode rt fuel' ctx) (JsonSchema.validateSchemaNode rt fuel ctx)
          fields value path := by
        intro child part shallower inner place within
        exact ih fuel' here (inside.trans part) (enough_within within shallower enough) (enough_within within shallower enough')
      rw [validateSchemaNode, validateSchemaNode, JsonSchema.validateSchemaNode]
      cases found : getField fields (js "$ref") with
      | none => exact keywords_answers agree
      | some target =>
        cases target with
        | str ref =>
          dsimp only
          cases leads : resolveLocalRef ctx.root ref with
          | none => exact failed_answers
          | some resolved =>
            dsimp only
            have part : Part root resolved := here ▸ resolve_part leads
            split
            · rename_i identity
              split
              · exact passed_answers
              · rename_i fresh
                have fewer := jumps_seen (reference_occurs inside found) fresh identity
                refine ih fuel' ?_ part (enough_follow part fewer enough) (enough_follow part fewer enough')
                exact here
            · split
              · exact failed_answers
              · rename_i identity shallow
                have fewer := @jumps_deeper root ctx value path identity shallow
                refine ih fuel' ?_ part (enough_follow part fewer enough) (enough_follow part fewer enough')
                exact here
        | _ => exact keywords_answers agree
    | bool verdict =>
      cases verdict with
      | true => exact passed_answers
      | false => exact failed_answers
    | _ => exact failed_answers

/-- The validator returns, with the same result however much more fuel there is, and it reports success
    exactly when it has no issues. -/
theorem validation_returns (rt : Runtime) (schema value : Json) : ∃ result,
    (∀ fuel, enoughFuel schema value ≤ fuel → validateJsonSchemaValue rt fuel schema value = some result) ∧
    (result.success = true ↔ result.issues = []) ∧ result.success = isJsonSchemaValueValid rt schema value := by
  have answers := fun fuel (enough : enoughFuel schema value ≤ fuel) =>
    @node_answers rt schema (enoughFuel schema value) fuel ⟨schema,[],0⟩ rfl _ (.self schema) _ _
      (root_enough schema value (Nat.le_refl _)) (root_enough schema value enough) []
  obtain ⟨new,one,_,none'⟩ := answers _ (Nat.le_refl _)
  refine ⟨⟨isJsonSchemaValueValid rt schema value,new⟩,?_,none',rfl⟩
  intro fuel enough
  obtain ⟨new',one',two',_⟩ := answers fuel enough
  rw [one, Option.some.injEq, Prod.mk.injEq] at one'
  rw [validateJsonSchemaValue, two', ← one'.2]
  rfl

end JsonSchemaIssues
