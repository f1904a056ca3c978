import OpenAgents.Schema.KeywordLemmas

/- The values inside a schema and its local references. A reference leads to a value inside the root, and
   the references that occur are finitely many. -/
namespace JsonSchema
open JsText JsJson JsObject

/-- A value inside another one, or itself. -/
inductive Part : Json → Json → Prop where
  | self (value : Json) : Part value value
  | item {items : List Json} {item part : Json} (mem : item ∈ items) (inside : Part item part) : Part (.arr items) part
  | field {fields : Fields} {field : JsString × Json} {part : Json} (mem : field ∈ fields) (inside : Part field.2 part) :
      Part (.obj fields) part

theorem Part.trans {root middle part : Json} (outer : Part root middle) (inner : Part middle part) : Part root part := by
  induction outer with
  | self => exact inner
  | item mem _ ih => exact .item mem (ih inner)
  | field mem _ ih => exact .field mem (ih inner)

theorem part_get {fields : Fields} {key : JsString} {value : Json} (found : getField fields key = some value) :
    Part (.obj fields) value := .field (mem_of_get found) (.self value)

theorem part_array {fields : Fields} {key : JsString} {items : List Json} (found : arrayOf? fields key = some items)
    {item : Json} (mem : item ∈ items) : Part (.obj fields) item := by
  rw [arrayOf?] at found
  split at found
  · rename_i here
    cases found
    exact (part_get here).trans (.item mem (.self item))
  · contradiction

theorem part_map {fields : Fields} {key : JsString} {field : JsString × Json} (mem : field ∈ objectOf fields key) :
    Part (.obj fields) field.2 := by
  rw [objectOf] at mem
  split at mem
  · rename_i here
    exact (part_get here).trans (.field mem (.self field.2))
  · contradiction

theorem pointerStep_part {current next : Json} {token : JsString} (found : pointerStep current token = some next) :
    Part current next := by
  cases current with
  | obj fields => exact part_get found
  | arr items =>
    obtain ⟨i,_,here⟩ := Option.bind_eq_some_iff.mp found
    exact .item (List.mem_of_getElem? here) (.self next)
  | _ => contradiction

theorem pointer_part {root target : Json} {tokens : List JsString}
    (found : tokens.foldlM (fun current token => pointerStep current (decodePointerToken token)) root = some target) :
    Part root target := by
  induction tokens generalizing root with
  | nil =>
    cases found
    exact .self _
  | cons token rest ih =>
    rw [List.foldlM_cons] at found
    obtain ⟨next,here,later⟩ := Option.bind_eq_some_iff.mp found
    exact (pointerStep_part here).trans (ih later)

/-- A reference leads to a value inside the root. -/
theorem resolve_part {root target : Json} {ref : JsString} (found : resolveLocalRef root ref = some target) : Part root target := by
  rw [resolveLocalRef] at found
  split at found
  · cases found
    exact .self root
  · split at found
    · exact pointer_part found
    · contradiction

def reference? (fields : Fields) : Option JsString := (getField fields (js "$ref")).bind stringOf?

mutual

/- The references that occur. -/
def referencesOf : Json → List JsString
  | .arr items => referencesItems items
  | .obj fields => (reference? fields).toList ++ referencesFields fields
  | _ => []

def referencesItems : List Json → List JsString
  | [] => []
  | item :: rest => referencesOf item ++ referencesItems rest

def referencesFields : Fields → List JsString
  | [] => []
  | (_, value) :: rest => referencesOf value ++ referencesFields rest

end

theorem references_item {items : List Json} {item : Json} (mem : item ∈ items) : referencesOf item ⊆ referencesItems items := by
  induction items with
  | nil => contradiction
  | cons first rest ih =>
    rw [referencesItems]
    rcases List.mem_cons.mp mem with rfl | later
    · exact List.subset_append_left _ _
    · exact List.Subset.trans (ih later) (List.subset_append_right _ _)

theorem references_field {fields : Fields} {field : JsString × Json} (mem : field ∈ fields) :
    referencesOf field.2 ⊆ referencesFields fields := by
  induction fields with
  | nil => contradiction
  | cons first rest ih =>
    rw [referencesFields]
    rcases List.mem_cons.mp mem with rfl | later
    · exact List.subset_append_left _ _
    · exact List.Subset.trans (ih later) (List.subset_append_right _ _)

theorem references_part {root part : Json} (inside : Part root part) : referencesOf part ⊆ referencesOf root := by
  induction inside with
  | self => exact List.Subset.refl _
  | item mem _ ih =>
    rw [referencesOf]
    exact List.Subset.trans ih (references_item mem)
  | field mem _ ih =>
    rw [referencesOf]
    exact List.Subset.trans (List.Subset.trans ih (references_field mem)) (List.subset_append_right _ _)

theorem reference_occurs {root : Json} {fields : Fields} {ref : JsString} (inside : Part root (.obj fields))
    (found : getField fields (js "$ref") = some (.str ref)) : ref ∈ referencesOf root := by
  refine references_part inside ?_
  rw [referencesOf, reference?, found]
  exact List.mem_cons_self

theorem depth_part {root part : Json} (inside : Part root part) : depth part ≤ depth root := by
  induction inside with
  | self => exact Nat.le_refl _
  | item mem _ ih =>
    rw [depth]
    exact Nat.le_succ_of_le (ih.trans (depth_item mem))
  | field mem _ ih =>
    rw [depth]
    exact Nat.le_succ_of_le (ih.trans (depth_field mem))

mutual

theorem references_count : (value : Json) → (referencesOf value).length ≤ count value
  | .arr items => by
      have rest := references_count_items items
      rw [referencesOf, count]
      omega
  | .obj fields => by
      have rest := references_count_fields fields
      have own : (reference? fields).toList.length ≤ 1 := by
        cases reference? fields <;> simp
      rw [referencesOf, count, List.length_append]
      omega
  | .null | .bool _ | .num _ | .str _ => Nat.zero_le _

theorem references_count_items : (items : List Json) → (referencesItems items).length ≤ countItems items
  | [] => Nat.le_refl 0
  | item :: rest => by
      have first := references_count item
      have later := references_count_items rest
      rw [referencesItems, countItems, List.length_append]
      omega

theorem references_count_fields : (fields : Fields) → (referencesFields fields).length ≤ countFields fields
  | [] => Nat.le_refl 0
  | (_, value) :: rest => by
      have first := references_count value
      have later := references_count_fields rest
      rw [referencesFields, countFields, List.length_append]
      omega

end

theorem countP_less {α : Type} {p q : α → Bool} {xs : List α} {x : α} (mem : x ∈ xs) (imp : ∀ y ∈ xs, p y = true → q y = true)
    (was : q x = true) (gone : p x = false) : xs.countP p < xs.countP q := by
  obtain ⟨before,after,rfl⟩ := List.append_of_mem mem
  have early := List.countP_mono_left fun y here => imp y (List.mem_append_left _ here)
  have late := List.countP_mono_left fun y here => imp y (List.mem_append_right _ (List.mem_cons_of_mem _ here))
  rw [List.countP_append, List.countP_append, List.countP_cons_of_neg (by simp [gone]), List.countP_cons_of_pos was]
  omega

section jumps
variable (root : Json)

/- The references not yet followed at a place. -/
def unseen (ctx : ValidationContext) (path : Path) : Nat :=
  (referencesOf root).countP fun ref => decide ((ref, path) ∉ ctx.seenPairs)

/- How often a reference may still be followed. -/
def jumps (ctx : ValidationContext) (value : Subject) (path : Path) : Nat :=
  (if value.any hasIdentity then unseen root ctx path + subjectDepth value * (referencesOf root).length else 0) +
    (maxRefDepth - ctx.refDepth)

/-- Fuel for a node: each reference followed leads to a node that may be as deep as the root. -/
def Enough (ctx : ValidationContext) (schema : Json) (value : Subject) (path : Path) (fuel : Nat) : Prop :=
  jumps root ctx value path * (depth root + 1) + depth schema < fuel

variable {root} {ctx : ValidationContext} {value inner : Subject} {path place : Path}

theorem unseen_le : unseen root ctx path ≤ (referencesOf root).length := List.countP_le_length

theorem identity_deep (deep : 0 < subjectDepth value) : value.any hasIdentity = true := by
  cases value with
  | none => contradiction
  | some value =>
    cases value with
    | arr | obj => rfl
    | _ => exact absurd deep (Nat.lt_irrefl 0)

/-- Further inside a value there is no more to follow. -/
theorem jumps_within (within : Within value path inner place) : jumps root ctx inner place ≤ jumps root ctx value path := by
  rcases within with ⟨rfl,rfl⟩ | deeper
  · exact Nat.le_refl _
  · have here := @identity_deep value (by omega)
    have fewer := @unseen_le root ctx place
    have product : (subjectDepth inner + 1) * (referencesOf root).length ≤ subjectDepth value * (referencesOf root).length :=
      Nat.mul_le_mul_right _ deeper
    rw [Nat.succ_mul] at product
    rw [jumps, jumps, if_pos here]
    split
    · omega
    · omega

theorem jumps_seen {ref : JsString} (occurs : ref ∈ referencesOf root) (fresh : (ref, path) ∉ ctx.seenPairs)
    (identity : value.any hasIdentity = true) :
    jumps root { ctx with seenPairs := (ref, path) :: ctx.seenPairs } value path < jumps root ctx value path := by
  have fewer : unseen root { ctx with seenPairs := (ref, path) :: ctx.seenPairs } path < unseen root ctx path := by
    refine countP_less occurs (fun other _ new => ?_) (decide_eq_true fresh) (by simp)
    rw [decide_eq_true_eq] at new ⊢
    exact fun old => new (List.mem_cons_of_mem _ old)
  rw [jumps, jumps, if_pos identity, if_pos identity]
  exact Nat.add_lt_add_right (Nat.add_lt_add_right fewer _) _

theorem jumps_deeper (primitive : ¬ value.any hasIdentity = true) (shallow : ¬ maxRefDepth ≤ ctx.refDepth) :
    jumps root { ctx with refDepth := ctx.refDepth + 1 } value path < jumps root ctx value path := by
  rw [jumps, jumps, if_neg primitive, if_neg primitive]
  dsimp only
  omega

/-- The node a reference leads to, with the rest of the fuel. -/
theorem enough_follow {ctx' : ValidationContext} {schema resolved : Json} {fuel : Nat} (inside : Part root resolved)
    (fewer : jumps root ctx' value path < jumps root ctx value path) (enough : Enough root ctx schema value path (fuel + 1)) :
    Enough root ctx' resolved value path fuel := by
  have shallow := depth_part inside
  have product : (jumps root ctx' value path + 1) * (depth root + 1) ≤ jumps root ctx value path * (depth root + 1) :=
    Nat.mul_le_mul_right _ fewer
  rw [Nat.succ_mul] at product
  rw [Enough] at enough ⊢
  omega

theorem enough_within {schema child : Json} {fuel : Nat} (within : Within value path inner place)
    (shallower : depth child < depth schema) (enough : Enough root ctx schema value path (fuel + 1)) :
    Enough root ctx child inner place fuel := by
  have fewer : jumps root ctx inner place ≤ jumps root ctx value path := jumps_within within
  have product := Nat.mul_le_mul_right (depth root + 1) fewer
  rw [Enough] at enough ⊢
  omega

theorem root_jumps (schema value : Json) :
    jumps schema ⟨schema,[],0⟩ (some value) [] ≤ (depth value + 1) * (count schema + 1) + maxRefDepth := by
  have few := references_count schema
  have fewer : unseen schema ⟨schema,[],0⟩ [] ≤ (referencesOf schema).length := unseen_le
  have product : (depth value + 1) * (referencesOf schema).length ≤ (depth value + 1) * (count schema + 1) :=
    Nat.mul_le_mul_left _ (by omega)
  rw [Nat.succ_mul (depth value)] at product
  rw [jumps]
  refine Nat.add_le_add ?_ (Nat.sub_le _ _)
  split
  · exact Nat.le_trans (Nat.add_le_add_right fewer _) (by rw [Nat.add_comm]; exact product)
  · exact Nat.zero_le _

theorem root_enough (schema value : Json) {fuel : Nat} (enough : enoughFuel schema value ≤ fuel) :
    Enough schema ⟨schema,[],0⟩ schema (some value) [] fuel := by
  have product := Nat.mul_le_mul_right (depth schema + 1) (root_jumps schema value)
  rw [enoughFuel, Nat.succ_mul] at enough
  rw [Enough]
  omega

end jumps

end JsonSchema
