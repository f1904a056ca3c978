import Mathlib.Data.List.Nodup
import Mathlib.Data.List.Basic

/- A map that lists its keys in the order of their first insertion. -/
namespace OrderedMap
variable {κ ν : Type} [DecidableEq κ]

abbrev OMap (κ ν : Type) := List (κ × ν)

def get? (m : OMap κ ν) (k : κ) : Option ν := (m.find? fun entry => entry.1 = k).map Prod.snd

def has (m : OMap κ ν) (k : κ) : Bool := m.any fun entry => entry.1 = k

/- A known key keeps its place. -/
def put : OMap κ ν → κ → ν → OMap κ ν
  | [], k, v => [(k, v)]
  | entry :: rest, k, v => if entry.1 = k then (k, v) :: rest else entry :: put rest k v

def remove (m : OMap κ ν) (k : κ) : OMap κ ν := m.filter fun entry => entry.1 ≠ k

def values (m : OMap κ ν) : List ν := m.map Prod.snd

def ofList (entries : List (κ × ν)) : OMap κ ν := entries.foldl (fun m entry => put m entry.1 entry.2) []

theorem has_iff (m : OMap κ ν) (k : κ) : has m k = true ↔ k ∈ m.map Prod.fst := by
  simp [has]

variable {m : OMap κ ν} {k : κ} {v : ν}

theorem put_new (v : ν) (fresh : k ∉ m.map Prod.fst) : put m k v = m ++ [(k, v)] := by
  induction m with
  | nil => rfl
  | cons entry rest ih =>
    rw [List.map_cons, List.mem_cons, not_or] at fresh
    have other : ¬entry.1 = k := fun same => fresh.1 same.symm
    rw [put, if_neg other, ih fresh.2, List.cons_append]

theorem mem_put_keys (m : OMap κ ν) (k : κ) (v : ν) (j : κ) :
    j ∈ (put m k v).map Prod.fst ↔ j = k ∨ j ∈ m.map Prod.fst := by
  induction m with
  | nil => simp [put]
  | cons entry rest ih =>
    rw [put]
    split
    · rename_i here
      simp [here]
    · simp only [List.map_cons, List.mem_cons, ih]
      tauto

theorem put_distinct (distinct : (m.map Prod.fst).Nodup) (k : κ) (v : ν) : ((put m k v).map Prod.fst).Nodup := by
  induction m with
  | nil => simp [put]
  | cons entry rest ih =>
    obtain ⟨fresh,nodup⟩ := List.nodup_cons.mp distinct
    rw [put]
    split
    next here =>
      rw [List.map_cons, List.nodup_cons]
      exact ⟨here ▸ fresh,nodup⟩
    next other =>
      rw [List.map_cons, List.nodup_cons, mem_put_keys, not_or]
      exact ⟨⟨other,fresh⟩,ih nodup⟩

theorem mem_put {entry : κ × ν} (mem : entry ∈ put m k v) : entry = (k, v) ∨ entry ∈ m := by
  induction m with
  | nil => exact .inl (List.mem_singleton.mp mem)
  | cons first rest ih =>
    rw [put] at mem
    split at mem
    · rcases List.mem_cons.mp mem with here | later
      · exact .inl here
      · exact .inr (List.mem_cons_of_mem _ later)
    · rcases List.mem_cons.mp mem with rfl | later
      · exact .inr List.mem_cons_self
      · exact (ih later).imp_right (List.mem_cons_of_mem _)

theorem has_put (m : OMap κ ν) (k : κ) (v : ν) (j : κ) :
    has (put m k v) j = true ↔ j = k ∨ has m j = true := by
  rw [has_iff, has_iff, mem_put_keys]

/-- Entries with distinct keys are listed as given. -/
theorem ofList_distinct (entries : List (κ × ν)) (distinct : (entries.map Prod.fst).Nodup) :
    ofList entries = entries := by
  have build : ∀ (rest m : List (κ × ν)), ((m ++ rest).map Prod.fst).Nodup →
      rest.foldl (fun m entry => put m entry.1 entry.2) m = m ++ rest := by
    intro rest
    induction rest with
    | nil => simp
    | cons entry rest ih =>
      intro m nodup
      have fresh : entry.1 ∉ m.map Prod.fst := by
        rw [List.map_append, List.nodup_append] at nodup
        exact fun mem => nodup.2.2 _ mem entry.1 (by simp) rfl
      rw [List.foldl_cons, put_new entry.2 fresh, ih (m ++ [entry]) (by simpa using nodup)]
      simp
  exact build entries [] (by simpa using distinct)

theorem get?_some_mem (found : get? m k = some v) : (k, v) ∈ m := by
  rw [get?, Option.map_eq_some_iff] at found
  obtain ⟨entry,here,rfl⟩ := found
  have key := List.find?_some here
  simp only [decide_eq_true_eq] at key
  have inside := List.mem_of_find?_eq_some here
  rw [← key]
  exact inside

theorem get?_none_iff : get? m k = none ↔ k ∉ m.map Prod.fst := by
  rw [get?, Option.map_eq_none_iff, List.find?_eq_none]
  constructor
  · intro absent mem
    obtain ⟨entry,inside,here⟩ := List.mem_map.mp mem
    exact absent entry inside (by simpa using here)
  · intro absent entry inside here
    exact absent (List.mem_map.mpr ⟨entry,inside,by simpa using here⟩)

theorem get?_of_mem (distinct : (m.map Prod.fst).Nodup) (mem : (k, v) ∈ m) : get? m k = some v := by
  cases found : get? m k with
  | none => exact absurd (List.mem_map_of_mem mem) (get?_none_iff.mp found)
  | some w =>
    have same := List.inj_on_of_nodup_map distinct (get?_some_mem found) mem rfl
    rw [(Prod.mk.inj same).2]

end OrderedMap
