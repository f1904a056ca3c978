import Mathlib.Data.List.Nodup
import Mathlib.Data.List.Basic

/- A map of at most `max` keys that forgets the least recently used one. The
   entries stand in recency order, the latest first. -/
namespace LruMap
variable {κ ν : Type} [DecidableEq κ]

structure Lru (κ ν : Type) (max : Nat) where
  entries : List (κ × ν)
  distinct : (entries.map Prod.fst).Nodup
  bounded : entries.length ≤ max

def lookup (k : κ) (entries : List (κ × ν)) : Option ν :=
  (entries.find? fun entry => entry.1 = k).map Prod.snd

def without (k : κ) (entries : List (κ × ν)) : List (κ × ν) :=
  entries.filter fun entry => entry.1 ≠ k

theorem lookup_cons (k : κ) (entry : κ × ν) (entries : List (κ × ν)) :
    lookup k (entry :: entries) = if entry.1 = k then some entry.2 else lookup k entries := by
  by_cases here : entry.1 = k <;> simp [lookup, here]

theorem without_cons (k : κ) (entry : κ × ν) (entries : List (κ × ν)) :
    without k (entry :: entries) =
      if entry.1 = k then without k entries else entry :: without k entries := by
  by_cases here : entry.1 = k <;> simp [without, here]

theorem lookup_without_self (k : κ) (entries : List (κ × ν)) : lookup k (without k entries) = none := by
  simp [lookup, without]

theorem lookup_without_other {j k : κ} (entries : List (κ × ν)) (other : j ≠ k) :
    lookup j (without k entries) = lookup j entries := by
  induction entries with
  | nil => rfl
  | cons entry entries ih =>
    by_cases gone : entry.1 = k
    · have elsewhere : ¬k = j := fun same => other same.symm
      simp [without_cons, lookup_cons, gone, ih, elsewhere]
    · simp [without_cons, gone, lookup_cons, ih]

theorem lookup_none_iff (k : κ) (entries : List (κ × ν)) :
    lookup k entries = none ↔ k ∉ entries.map Prod.fst := by
  induction entries with
  | nil => simp [lookup]
  | cons entry entries ih =>
    by_cases here : entry.1 = k
    · simp [lookup_cons, here]
    · have elsewhere : ¬k = entry.1 := fun same => here same.symm
      simp [lookup_cons, here, elsewhere, ih]

theorem without_distinct {k : κ} {entries : List (κ × ν)} (distinct : (entries.map Prod.fst).Nodup) :
    ((without k entries).map Prod.fst).Nodup :=
  (List.filter_sublist.map Prod.fst).nodup distinct

theorem key_not_without (k : κ) (entries : List (κ × ν)) : k ∉ (without k entries).map Prod.fst := by
  simp [without]

/-- A prefix keeps what it finds and finds nothing else. -/
theorem lookup_take (k : κ) (n : Nat) (entries : List (κ × ν)) :
    lookup k (entries.take n) = lookup k entries ∨ lookup k (entries.take n) = none := by
  induction entries generalizing n with
  | nil => simp
  | cons entry entries ih =>
    cases n with
    | zero => simp [lookup]
    | succ n =>
      rw [List.take_succ_cons, lookup_cons, lookup_cons]
      by_cases here : entry.1 = k
      · simp [here]
      · simpa [here] using ih n

def empty (max : Nat) : Lru κ ν max := ⟨[],List.nodup_nil,Nat.zero_le max⟩

variable {max : Nat}

def find (m : Lru κ ν max) (k : κ) : Option ν := lookup k m.entries

/- Reading a key makes it the latest. -/
def touch (m : Lru κ ν max) (k : κ) : Lru κ ν max :=
  match found : lookup k m.entries with
  | none => m
  | some v =>
      { entries := (k, v) :: without k m.entries
        distinct := List.nodup_cons.mpr ⟨key_not_without k m.entries,without_distinct m.distinct⟩
        bounded := by
          have present : k ∈ m.entries.map Prod.fst := by
            by_contra absent
            rw [(lookup_none_iff k m.entries).mpr absent] at found
            contradiction
          have shorter : (without k m.entries).length < m.entries.length := by
            obtain ⟨entry,mem,here⟩ := List.mem_map.mp present
            refine Nat.lt_of_le_of_ne (List.length_filter_le _ _) fun same => ?_
            have all := List.length_filter_eq_length_iff.mp same entry mem
            simp [here] at all
          have := m.bounded
          simp only [List.length_cons]
          omega }

def set (m : Lru κ ν max) (k : κ) (v : ν) : Lru κ ν max where
  entries := ((k, v) :: without k m.entries).take max
  distinct := by
    rw [List.map_take]
    exact (List.take_sublist max _).nodup
      (List.nodup_cons.mpr ⟨key_not_without k m.entries,without_distinct m.distinct⟩)
  bounded := by simp [List.length_take, Nat.min_le_left]

def delete (m : Lru κ ν max) (k : κ) : Lru κ ν max where
  entries := without k m.entries
  distinct := without_distinct m.distinct
  bounded := Nat.le_trans (List.length_filter_le _ _) m.bounded

theorem find_touch (m : Lru κ ν max) (j k : κ) : find (touch m k) j = find m j := by
  unfold touch find
  split
  · rfl
  · rename_i v found
    rw [lookup_cons]
    by_cases here : k = j
    · subst here
      simp [found]
    · simp [here, lookup_without_other _ fun same : j = k => here same.symm]

theorem find_set_self (m : Lru κ ν max) (k : κ) (v : ν) (room : 0 < max) :
    find (set m k v) k = some v := by
  obtain ⟨n,rfl⟩ : ∃ n, max = n + 1 := ⟨max - 1,by omega⟩
  simp [find, set, lookup_cons]

/-- Another key keeps its value or is evicted. -/
theorem find_set_other (m : Lru κ ν max) {j k : κ} (v : ν) (other : j ≠ k) :
    find (set m k v) j = find m j ∨ find (set m k v) j = none := by
  have elsewhere : ¬k = j := fun same => other same.symm
  have reached : lookup j ((k, v) :: without k m.entries) = lookup j m.entries := by
    rw [lookup_cons, if_neg elsewhere, lookup_without_other _ other]
  rcases lookup_take j max ((k, v) :: without k m.entries) with kept | gone
  · exact .inl (kept.trans reached)
  · exact .inr gone

theorem find_delete_self (m : Lru κ ν max) (k : κ) : find (delete m k) k = none :=
  lookup_without_self k m.entries

theorem find_delete_other (m : Lru κ ν max) {j k : κ} (other : j ≠ k) :
    find (delete m k) j = find m j := lookup_without_other m.entries other

end LruMap

/- Lists of distinct items with the latest first, and what a window of the `n`
   latest ones becomes when an item is seen again. -/
namespace RecentFirst
variable {α : Type} [DecidableEq α]

def others (x : α) (xs : List α) : List α := xs.filter fun y => y ≠ x

def promote (x : α) (xs : List α) : List α := x :: others x xs

theorem others_cons_self (x : α) (xs : List α) : others x (x :: xs) = others x xs := by
  simp [others]

variable {x y : α} {xs : List α} {n : Nat}

theorem others_cons_other (xs : List α) (other : y ≠ x) : others x (y :: xs) = y :: others x xs := by
  simp [others, other]

theorem others_append (x : α) (xs ys : List α) :
    others x (xs ++ ys) = others x xs ++ others x ys := List.filter_append ..

theorem others_absent (absent : x ∉ xs) : others x xs = xs := by
  induction xs with
  | nil => rfl
  | cons y xs ih =>
    obtain ⟨other,later⟩ := not_or.mp (fun h => absent (List.mem_cons.mpr h))
    rw [others_cons_other xs fun same => other same.symm, ih later]

theorem promote_nodup (x : α) (distinct : xs.Nodup) : (promote x xs).Nodup :=
  List.nodup_cons.mpr ⟨by simp [others],distinct.filter _⟩

theorem mem_promote : y ∈ promote x xs ↔ y = x ∨ y ∈ xs := by
  by_cases here : y = x <;> simp [promote, others, here]

theorem take_others_known (distinct : xs.Nodup) (known : x ∈ xs.take (n + 1)) : (others x xs).take n = others x (xs.take (n + 1)) := by
  induction xs generalizing n with
  | nil => simp at known
  | cons y xs ih =>
    obtain ⟨fresh,rest⟩ := List.nodup_cons.mp distinct
    by_cases here : y = x
    · subst here
      have gone : y ∉ xs.take n := fun mem => fresh (List.mem_of_mem_take mem)
      rw [List.take_succ_cons, others_cons_self, others_cons_self, others_absent fresh,
        others_absent gone]
    · have later : x ∈ xs.take n :=
        (List.mem_cons.mp known).resolve_left fun same => here same.symm
      cases n with
      | zero => simp at later
      | succ n =>
        rw [List.take_succ_cons, others_cons_other _ here, others_cons_other _ here,
          List.take_succ_cons, ih rest later]

theorem take_others_new (fresh : x ∉ xs.take n) : (others x xs).take n = xs.take n := by
  induction xs generalizing n with
  | nil => rfl
  | cons y xs ih =>
    cases n with
    | zero => simp
    | succ n =>
      obtain ⟨other,later⟩ := not_or.mp (fun h => fresh (List.mem_cons.mpr h))
      rw [others_cons_other xs fun same => other same.symm, List.take_succ_cons,
        List.take_succ_cons, ih later]

/-- An item inside the window moves to its front. -/
theorem take_promote_known (distinct : xs.Nodup) (known : x ∈ xs.take n) : (promote x xs).take n = promote x (xs.take n) := by
  cases n with
  | zero => simp at known
  | succ n => rw [promote, promote, List.take_succ_cons, take_others_known distinct known]

/-- A new item pushes the last one out of the window. -/
theorem take_promote_new (fresh : x ∉ xs.take n) : (promote x xs).take n = (x :: xs.take n).take n := by
  cases n with
  | zero => simp
  | succ n =>
    have early : x ∉ xs.take n := fun mem => fresh (List.take_subset_take_left xs (Nat.le_succ n) mem)
    rw [promote, List.take_succ_cons, List.take_succ_cons, take_others_new early, List.take_take,
      Nat.min_eq_left (Nat.le_succ n)]

end RecentFirst
