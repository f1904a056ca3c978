import OpenAgents.Lib.JsText
import Mathlib.Data.List.Nodup

/- JSON values, and the text `JSON.stringify` gives them. A number is kept as its
   canonical text; object fields stand in insertion order. -/
namespace JsJson
open JsText

inductive Json where
  | null
  | bool (value : Bool)
  | num (text : JsString)
  | str (text : JsString)
  | arr (items : List Json)
  | obj (fields : List (JsString × Json))

mutual

def stringify : Json → JsString
  | .null => js "null"
  | .bool true => js "true"
  | .bool false => js "false"
  | .num text => text
  | .str text => quote text
  | .arr items => js "[" ++ stringifyItems items ++ js "]"
  | .obj fields => js "\x7b" ++ stringifyFields fields ++ js "\x7d"

def stringifyItems : List Json → JsString
  | [] => []
  | [item] => stringify item
  | item :: rest => stringify item ++ js "," ++ stringifyItems rest

def stringifyFields : List (JsString × Json) → JsString
  | [] => []
  | [(key, value)] => quote key ++ js ":" ++ stringify value
  | (key, value) :: rest => quote key ++ js ":" ++ stringify value ++ js "," ++ stringifyFields rest

end

mutual

def decEqJson : (a b : Json) → Decidable (a = b)
  | .null, .null => isTrue rfl
  | .bool a, .bool b => decidable_of_iff (a = b) (by simp)
  | .num a, .num b => decidable_of_iff (a = b) (by simp)
  | .str a, .str b => decidable_of_iff (a = b) (by simp)
  | .arr a, .arr b => @decidable_of_iff _ (a = b) (by simp) (decEqItems a b)
  | .obj a, .obj b => @decidable_of_iff _ (a = b) (by simp) (decEqFields a b)
  | .null, .bool _ | .null, .num _ | .null, .str _ | .null, .arr _ | .null, .obj _
  | .bool _, .null | .bool _, .num _ | .bool _, .str _ | .bool _, .arr _ | .bool _, .obj _
  | .num _, .null | .num _, .bool _ | .num _, .str _ | .num _, .arr _ | .num _, .obj _
  | .str _, .null | .str _, .bool _ | .str _, .num _ | .str _, .arr _ | .str _, .obj _
  | .arr _, .null | .arr _, .bool _ | .arr _, .num _ | .arr _, .str _ | .arr _, .obj _
  | .obj _, .null | .obj _, .bool _ | .obj _, .num _ | .obj _, .str _ | .obj _, .arr _ =>
      isFalse (by simp)

def decEqItems : (a b : List Json) → Decidable (a = b)
  | [], [] => isTrue rfl
  | [], _ :: _ => isFalse (by simp)
  | _ :: _, [] => isFalse (by simp)
  | x :: xs, y :: ys =>
      @decidable_of_iff _ (x = y ∧ xs = ys) (by simp) (@instDecidableAnd _ _ (decEqJson x y) (decEqItems xs ys))

def decEqFields : (a b : List (JsString × Json)) → Decidable (a = b)
  | [], [] => isTrue rfl
  | [], _ :: _ => isFalse (by simp)
  | _ :: _, [] => isFalse (by simp)
  | (j, x) :: xs, (k, y) :: ys =>
      @decidable_of_iff _ (j = k ∧ x = y ∧ xs = ys) (by simp [and_assoc])
        (@instDecidableAnd _ _ inferInstance
          (@instDecidableAnd _ _ (decEqJson x y) (decEqFields xs ys)))

end

instance : DecidableEq Json := decEqJson

/- Reading a property; a missing one is absent. -/
def Json.field? (value : Json) (key : JsString) : Option Json :=
  match value with
  | .obj fields => (fields.find? fun field => field.1 = key).map Prod.snd
  | _ => none

/- Objects that are built by assignment -/

/- The value of a key that is an array index in canonical form. -/
def arrayIndex? (key : JsString) : Option Nat :=
  let value := key.foldl (fun n c => n * 10 + (c.toNat - 48)) 0
  if decimal value = key ∧ value < 4294967295 then some value else none

def indexBefore {α : Type} (n : Nat) (field : JsString × α) : Bool :=
  match arrayIndex? field.1 with
  | some k => k < n
  | none => false

/-- A known key keeps its place; array indices are listed first and ascending. Assigning
    `__proto__` makes no own property. -/
def assignField {α : Type} (fields : List (JsString × α)) (key : JsString) (value : α) :
    List (JsString × α) :=
  if key = js "__proto__" then fields
  else if fields.any fun field => field.1 = key then
    fields.map fun field => if field.1 = key then (key, value) else field
  else
    match arrayIndex? key with
    | none => fields ++ [(key, value)]
    | some n => fields.takeWhile (indexBefore n) ++ (key, value) :: fields.dropWhile (indexBefore n)

end JsJson

/- Objects of JSON values: reading a property, building an object by assignments in a loop over
   another one, and the objects whose keys stand as the language lists them. -/
namespace JsObject
open JsText JsJson

abbrev Fields := List (JsString × Json)

variable {α : Type}

def getField (fields : List (JsString × α)) (key : JsString) : Option α := (fields.find? fun field => field.1 = key).map Prod.snd

def hasField (fields : List (JsString × α)) (key : JsString) : Bool := fields.any fun field => field.1 = key

/- What every object answers to besides its own properties: functions, but for `__proto__`. -/
def inheritedNames : List JsString :=
  [js "__proto__", js "constructor", js "hasOwnProperty", js "isPrototypeOf", js "propertyIsEnumerable",
    js "toLocaleString", js "toString", js "valueOf", js "__defineGetter__", js "__defineSetter__",
    js "__lookupGetter__", js "__lookupSetter__"]

/- `key in object`. -/
def inObject (fields : List (JsString × α)) (key : JsString) : Bool := hasField fields key || inheritedNames.contains key

/- Array indices ascending, then the other keys, each once. -/
def keyBefore (a b : JsString) : Bool :=
  match arrayIndex? a, arrayIndex? b with
  | some m, some n => m < n
  | some _, none => true
  | none, some _ => false
  | none, none => a != b

def Listed (fields : List (JsString × α)) : Prop :=
  fields.Pairwise (fun a b => keyBefore a.1 b.1 = true) ∧ ∀ field ∈ fields, field.1 ≠ js "__proto__"

instance (fields : List (JsString × α)) : Decidable (Listed fields) :=
  inferInstanceAs (Decidable (fields.Pairwise _ ∧ ∀ field ∈ fields, field.1 ≠ js "__proto__"))

/- The loop `for (key in …) out[key] = …` over an empty `out`. -/
def assignAll (fields : List (JsString × α)) : List (JsString × α) := fields.foldl (fun out field => assignField out field.1 field.2) []

mutual

/- A value in which every object lists its keys in order and has no key `__proto__`. -/
def plain : Json → Bool
  | .arr items => plainItems items
  | .obj fields => decide (Listed fields) && plainFields fields
  | _ => true

def plainItems : List Json → Bool
  | [] => true
  | item :: rest => plain item && plainItems rest

def plainFields : Fields → Bool
  | [] => true
  | (_, value) :: rest => plain value && plainFields rest

end

theorem keyBefore_ne {a b : JsString} (before : keyBefore a b = true) : a ≠ b := by
  intro same
  rw [same, keyBefore] at before
  split at before
  · rename_i m n first second
    rw [first, Option.some.injEq] at second
    simp [second] at before
  · rename_i first second
    rw [first] at second
    contradiction
  · contradiction
  · simp at before

theorem listed_sublist {fields part : List (JsString × α)} (sub : part.Sublist fields) (listed : Listed fields) : Listed part :=
  ⟨listed.1.sublist sub,fun field mem => listed.2 field (sub.subset mem)⟩

/-- Only the keys matter. -/
theorem listed_of_keys {fields other : List (JsString × α)} (keys : other.map Prod.fst = fields.map Prod.fst) (listed : Listed fields) :
    Listed other := by
  have pairs : (other.map Prod.fst).Pairwise (fun a b => keyBefore a b = true) := by
    rw [keys, List.pairwise_map]
    exact listed.1
  rw [List.pairwise_map] at pairs
  constructor
  · exact pairs
  · intro field mem
    have key : field.1 ∈ fields.map Prod.fst := by
      rw [← keys]
      exact List.mem_map_of_mem mem
    obtain ⟨own,inside,same⟩ := List.mem_map.mp key
    rw [← same]
    exact listed.2 own inside

theorem listed_nodup {fields : List (JsString × α)} (listed : Listed fields) : (fields.map Prod.fst).Nodup := by
  rw [List.Nodup, List.pairwise_map]
  exact listed.1.imp fun before => keyBefore_ne before

theorem get_of_mem {fields : List (JsString × α)} (distinct : (fields.map Prod.fst).Nodup) {key : JsString} {value : α}
    (mem : (key, value) ∈ fields) : getField fields key = some value := by
  induction fields with
  | nil => contradiction
  | cons field rest ih =>
    rw [List.map_cons, List.nodup_cons] at distinct
    rcases List.mem_cons.mp mem with here | later
    · simp [getField, ← here]
    · have other : field.1 ≠ key := by
        intro same
        apply distinct.1
        rw [same]
        exact List.mem_map.mpr ⟨(key, value),later,rfl⟩
      have found := ih distinct.2 later
      simpa [getField, other] using found

theorem mem_of_get {fields : List (JsString × α)} {key : JsString} {value : α} (found : getField fields key = some value) :
    (key, value) ∈ fields := by
  rw [getField, Option.map_eq_some_iff] at found
  obtain ⟨field,here,same⟩ := found
  have name := List.find?_some here
  rw [decide_eq_true_eq] at name
  have mem := List.mem_of_find?_eq_some here
  rw [← name, ← same]
  exact mem

theorem get_none_iff {fields : List (JsString × α)} {key : JsString} : getField fields key = none ↔ key ∉ fields.map Prod.fst := by
  simp only [getField, Option.map_eq_none_iff, List.find?_eq_none, decide_eq_true_eq, List.mem_map, not_exists, not_and]

theorem has_iff {fields : List (JsString × α)} {key : JsString} : hasField fields key = true ↔ key ∈ fields.map Prod.fst := by
  simp [hasField]

theorem get_map {fields : List (JsString × α)} {β : Type} (f : JsString → α → β) (key : JsString) :
    getField (fields.map fun field => (field.1, f field.1 field.2)) key = (getField fields key).map (f key) := by
  induction fields with
  | nil => rfl
  | cons field rest ih =>
    by_cases same : field.1 = key
    · simp [getField, same]
    · simpa [getField, same] using ih

theorem get_cons (field : JsString × α) (fields : List (JsString × α)) (key : JsString) :
    getField (field :: fields) key = if field.1 = key then some field.2 else getField fields key := by
  by_cases same : field.1 = key <;> simp [getField, same]

theorem get_insert {before after : List (JsString × α)} {key : JsString} (fresh : key ∉ before.map Prod.fst) (value : α) (other : JsString) :
    getField (before ++ (key, value) :: after) other =
      if key = other then some value else getField (before ++ after) other := by
  induction before with
  | nil => exact get_cons (key, value) after other
  | cons field rest ih =>
    rw [List.map_cons, List.mem_cons, not_or] at fresh
    rw [List.cons_append, get_cons, ih fresh.2, List.cons_append, get_cons]
    by_cases here : field.1 = other
    · have differ : ¬ key = other := fun same => fresh.1 (same.trans here.symm)
      rw [if_pos here, if_neg differ, if_pos here]
    · rw [if_neg here, if_neg here]

/-- What an assignment leaves to be read. -/
theorem get_assign {fields : List (JsString × α)} {key : JsString} (value : α) (ordinary : key ≠ js "__proto__") (other : JsString) :
    getField (assignField fields key value) other = if key = other then some value else getField fields other := by
  rw [assignField, if_neg ordinary]
  split
  · rename_i known
    induction fields with
    | nil => contradiction
    | cons field rest ih =>
      rw [List.map_cons, get_cons, get_cons]
      by_cases here : field.1 = key
      · rw [if_pos here]
        by_cases same : key = other
        · rw [if_pos same, if_pos same]
        · have differ : ¬ field.1 = other := fun is => same (here.symm.trans is)
          rw [if_neg same, if_neg differ, if_neg same]
          cases more : rest.any (fun field => field.1 = key) with
          | true => rw [ih more, if_neg same]
          | false =>
            have kept : rest.map (fun field => if field.1 = key then (key, value) else field) = rest := by
              refine (List.map_congr_left ?_).trans (List.map_id rest)
              intro later mem
              have apart := List.any_eq_false.mp more later mem
              rw [decide_eq_true_eq] at apart
              exact if_neg apart
            rw [kept]
      · rw [if_neg here]
        have more : rest.any (fun field => field.1 = key) = true := by simpa [here] using known
        rw [ih more]
        by_cases first : field.1 = other
        · have differ : ¬ key = other := fun same => here (first.trans same.symm)
          rw [if_pos first, if_neg differ, if_pos first]
        · rw [if_neg first, if_neg first]
  · rename_i unknown
    have fresh : key ∉ fields.map Prod.fst := by
      rw [← has_iff]
      exact unknown
    split
    · have inserted := @get_insert α fields [] key fresh value other
      rw [List.append_nil] at inserted
      exact inserted
    · rename_i n index
      have early : key ∉ (fields.takeWhile (indexBefore n)).map Prod.fst := fun mem =>
        fresh (List.map_subset Prod.fst (List.takeWhile_subset _) mem)
      rw [get_insert early, List.takeWhile_append_dropWhile]

theorem mem_assign {fields : List (JsString × α)} {key : JsString} {value : α} {field : JsString × α}
    (mem : field ∈ assignField fields key value) : field ∈ fields ∨ field = (key, value) := by
  rw [assignField] at mem
  split at mem
  · exact .inl mem
  · split at mem
    · obtain ⟨own,inside,same⟩ := List.mem_map.mp mem
      split at same
      · exact .inr same.symm
      · rw [← same]
        exact .inl inside
    · split at mem
      · simpa [or_comm] using mem
      · rcases List.mem_append.mp mem with early | late
        · exact .inl ((List.takeWhile_subset _) early)
        · rcases List.mem_cons.mp late with here | later
          · exact .inr here
          · exact .inl ((List.dropWhile_subset _) later)

/-- A key that is no array index keeps the order. -/
theorem assign_listed {fields : List (JsString × α)} (listed : Listed fields) {key : JsString} (value : α)
    (ordinary : key ≠ js "__proto__") (name : arrayIndex? key = none) : Listed (assignField fields key value) := by
  rw [assignField, if_neg ordinary]
  split
  · apply listed_of_keys _ listed
    rw [List.map_map]
    apply List.map_congr_left
    intro field _
    dsimp only [Function.comp_apply]
    split
    · rename_i here
      exact here.symm
    · rfl
  · rename_i unknown
    rw [name]
    constructor
    · rw [List.pairwise_append]
      refine ⟨listed.1,List.pairwise_singleton _ _,?_⟩
      intro field mem last here
      rw [List.mem_singleton] at here
      rw [here, keyBefore, name]
      cases arrayIndex? field.1 with
      | some n => rfl
      | none =>
        simp only [bne_iff_ne, ne_eq]
        intro same
        exact unknown (List.any_eq_true.mpr ⟨field,mem,by simpa using same⟩)
    · intro field mem
      rcases List.mem_append.mp mem with old | new
      · exact listed.2 field old
      · rw [List.mem_singleton] at new
        rw [new]
        exact ordinary

theorem assign_ne_nil {fields : List (JsString × α)} {key : JsString} (value : α) (ordinary : key ≠ js "__proto__") :
    assignField fields key value ≠ [] := by
  intro empty
  have read := @get_assign α fields key value ordinary key
  rw [empty, if_pos rfl] at read
  contradiction

theorem takeWhile_all {p : α → Bool} {xs : List α} (all : ∀ x ∈ xs, p x = true) :
    xs.takeWhile p = xs ∧ xs.dropWhile p = [] :=
  ⟨List.takeWhile_eq_self_iff.mpr all,List.dropWhile_eq_nil_iff.mpr all⟩

/-- A key that comes after all others is appended. -/
theorem assign_last {fields : List (JsString × α)} {key : JsString} (value : α) (ordinary : key ≠ js "__proto__")
    (last : ∀ field ∈ fields, keyBefore field.1 key = true) : assignField fields key value = fields ++ [(key, value)] := by
  have fresh : (fields.any fun field => field.1 = key) = false := by
    rw [List.any_eq_false]
    intro field mem
    rw [decide_eq_true_eq]
    exact keyBefore_ne (last field mem)
  rw [assignField, if_neg ordinary, fresh]
  simp only [Bool.false_eq_true, if_false]
  cases index : arrayIndex? key with
  | none => rfl
  | some n =>
    have before : ∀ field ∈ fields, indexBefore n field = true := by
      intro field mem
      have below := last field mem
      rw [keyBefore, index] at below
      rw [indexBefore]
      cases other : arrayIndex? field.1 with
      | none => simp [other] at below
      | some m => simpa [other] using below
    obtain ⟨taken,dropped⟩ := takeWhile_all before
    simp only [taken, dropped]

theorem assignAll_listed {fields : List (JsString × α)} (listed : Listed fields) : assignAll fields = fields := by
  have build : ∀ rest out : List (JsString × α), Listed (out ++ rest) →
      rest.foldl (fun out field => assignField out field.1 field.2) out = out ++ rest := by
    intro rest
    induction rest with
    | nil =>
      intro out _
      simp
    | cons field rest ih =>
      intro out all
      have split := List.pairwise_append.mp all.1
      have last : ∀ earlier ∈ out, keyBefore earlier.1 field.1 = true := fun earlier mem =>
        split.2.2 earlier mem field List.mem_cons_self
      have ordinary := all.2 field (List.mem_append_right out List.mem_cons_self)
      rw [List.foldl_cons, assign_last field.2 ordinary last, ih (out ++ [(field.1, field.2)]) (by simpa using all)]
      simp
  have all := build fields [] (by simpa using listed)
  simpa [assignAll] using all

theorem plain_items {items : List Json} (ok : plain (.arr items) = true) : ∀ item ∈ items, plain item = true := by
  rw [plain] at ok
  induction items with
  | nil => simp
  | cons item rest ih =>
    rw [plainItems, Bool.and_eq_true] at ok
    intro other mem
    rcases List.mem_cons.mp mem with rfl | later
    · exact ok.1
    · exact ih ok.2 other later

theorem plain_listed {fields : Fields} (ok : plain (.obj fields) = true) : Listed fields := by
  rw [plain, Bool.and_eq_true, decide_eq_true_eq] at ok
  exact ok.1

theorem plain_fields {fields : Fields} (ok : plain (.obj fields) = true) : ∀ field ∈ fields, plain field.2 = true := by
  rw [plain, Bool.and_eq_true] at ok
  have each := ok.2
  clear ok
  induction fields with
  | nil => simp
  | cons field rest ih =>
    rw [plainFields, Bool.and_eq_true] at each
    intro other mem
    rcases List.mem_cons.mp mem with rfl | later
    · exact each.1
    · exact ih each.2 other later

theorem plain_get {fields : Fields} (ok : plain (.obj fields) = true) {key : JsString} {value : Json}
    (found : getField fields key = some value) : plain value = true := plain_fields ok (key, value) (mem_of_get found)

/-- An assignment gives no key twice. -/
theorem assign_nodup {fields : List (JsString × α)} (once : (fields.map Prod.fst).Nodup) (key : JsString) (value : α) :
    ((assignField fields key value).map Prod.fst).Nodup := by
  rw [assignField]
  split
  · exact once
  · split
    · have same : (fields.map fun field => if field.1 = key then (key, value) else field).map Prod.fst = fields.map Prod.fst := by
        rw [List.map_map]
        apply List.map_congr_left
        intro field _
        dsimp only [Function.comp_apply]
        split
        · rename_i here
          exact here.symm
        · rfl
      rw [same]
      exact once
    · rename_i unknown
      have fresh : key ∉ fields.map Prod.fst := by
        rw [← has_iff]
        exact unknown
      split
      · rw [List.map_append, List.nodup_append]
        refine ⟨once,List.nodup_singleton key,?_⟩
        intro a old b new same
        simp only [List.map_cons, List.map_nil, List.mem_singleton] at new
        rw [same, new] at old
        exact fresh old
      · rename_i n _
        have whole : (fields.takeWhile (indexBefore n) ++ fields.dropWhile (indexBefore n)).map Prod.fst = fields.map Prod.fst := by
          rw [List.takeWhile_append_dropWhile]
        rw [← whole] at once fresh
        rw [List.map_append] at once fresh
        rw [List.map_append, List.map_cons, List.nodup_middle, List.nodup_cons]
        exact ⟨fresh,once⟩

end JsObject
