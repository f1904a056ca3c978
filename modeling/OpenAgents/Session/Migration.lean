import OpenAgents.Session.Manager

/- The migration of a version-1 session file: ids and parents for its entries, and the kept index
   of a compaction turned into an id.  The set of ids that the generator checks is never filled. -/
namespace Migration
open JsText
open Session (IdSource generateId)

inductive Kind where
  | session (version : Option Nat)
  | compaction (firstKeptEntryId : Option JsString) (firstKeptEntryIndex : Option Int)
  | other
  deriving DecidableEq

/-- A line of the file; only the header has an id in version 1. -/
structure FileEntry where
  id : Option JsString
  parentId : Option JsString
  kind : Kind
  deriving DecidableEq

def FileEntry.isSession (entry : FileEntry) : Bool := entry.kind matches .session _

def FileEntry.keptIndex (entry : FileEntry) : Option Int :=
  match entry.kind with
  | .compaction _ index => index
  | _ => none

def FileEntry.keptId (entry : FileEntry) : Option JsString :=
  match entry.kind with
  | .compaction kept _ => kept
  | _ => none

def entryAt (entries : List FileEntry) (index : Int) : Option FileEntry :=
  if 0 ≤ index then entries[index.toNat]? else none

def convertKept (entries : List FileEntry) (entry : FileEntry) : FileEntry :=
  match entry.kind with
  | .compaction kept (some index) =>
      match entryAt entries index with
      | some target =>
          { entry with kind := .compaction (if target.isSession then kept else target.id) none }
      | none => { entry with kind := .compaction kept none }
  | _ => entry

structure State where
  entries : List FileEntry
  prevId : Option JsString
  calls : Nat
  deriving DecidableEq

/- One turn of the loop, on the entries as they stand. -/
def migrateEntry (sources : Nat → IdSource) (ids : List JsString) (s : State) (i : Nat) : State :=
  match s.entries[i]? with
  | none => s
  | some entry =>
      if entry.isSession then { s with entries := s.entries.set i { entry with kind := .session (some 2) } }
      else
        let id := generateId (sources s.calls) ids
        let entry := { entry with id := some id, parentId := s.prevId }
        let entries := s.entries.set i entry
        { entries := entries.set i (convertKept entries entry), prevId := some id, calls := s.calls + 1 }

def migrateV1ToV2 (sources : Nat → IdSource) (entries : List FileEntry) : List FileEntry :=
  ((List.range entries.length).foldl (migrateEntry sources []) ⟨entries,none,0⟩).entries

def Version1 (entries : List FileEntry) : Prop := ∀ entry ∈ entries, entry.isSession = false → entry.id = none

instance (entries : List FileEntry) : Decidable (Version1 entries) :=
  inferInstanceAs (Decidable (∀ entry ∈ entries, entry.isSession = false → entry.id = none))

/- The entries of the tree, without headers. -/
def treeEntries (entries : List FileEntry) : List FileEntry := entries.filter fun entry => !entry.isSession

/-- Distinct ids, each entry the child of the one before, and every kept index that names an entry turned
into the id of that entry. -/
structure Migrated (before after : List FileEntry) : Prop where
  named : ∀ entry ∈ treeEntries after, entry.id.isSome = true
  distinct : ((treeEntries after).map FileEntry.id).Nodup
  linked : (treeEntries after).IsChain fun parent child => child.parentId = parent.id
  root : ∀ entry ∈ (treeEntries after).head?, entry.parentId = none
  kept : ∀ (i j : Nat) (entry target : FileEntry), before[i]? = some entry → entry.keptIndex = some ↑j →
    before[j]? = some target → target.isSession = false →
      ∃ entry' target', after[i]? = some entry' ∧ after[j]? = some target' ∧ entry'.keptId = target'.id

/- What the generator takes when it knows of no ids. -/
def firstDraw (source : IdSource) : JsString := source.randomUUIDs.head?.getD source.snowflake

def drawn (sources : Nat → IdSource) (count : Nat) : List JsString :=
  (List.range count).map fun call => firstDraw (sources call)

def NoForwardKept (entries : List FileEntry) : Prop :=
  ∀ (i j : Nat) (entry target : FileEntry), entries[i]? = some entry → entry.keptIndex = some ↑j →
    entries[j]? = some target → target.isSession = false → j ≤ i

theorem generateId_unchecked (source : IdSource) : generateId source [] = firstDraw source := by
  unfold generateId firstDraw
  cases source.randomUUIDs with
  | nil => rfl
  | cons first rest => simp

/- The loop -/

theorem entryAt_nat (entries : List FileEntry) (j : Nat) : entryAt entries ↑j = entries[j]? := by
  simp [entryAt]

theorem convertKept_frame (entries : List FileEntry) (entry : FileEntry) :
    (convertKept entries entry).id = entry.id ∧ (convertKept entries entry).parentId = entry.parentId ∧
      (convertKept entries entry).isSession = entry.isSession := by
  obtain ⟨id,parentId,kind⟩ := entry
  unfold convertKept FileEntry.isSession
  cases kind with
  | session version => exact ⟨rfl,rfl,rfl⟩
  | other => exact ⟨rfl,rfl,rfl⟩
  | compaction kept index =>
    cases index with
    | none => exact ⟨rfl,rfl,rfl⟩
    | some index =>
      dsimp only
      cases entryAt entries index <;> exact ⟨rfl,rfl,rfl⟩

variable {entries : List FileEntry} {s : State} {i k : Nat} {sources : Nat → IdSource}

theorem convertKept_kept {entry target : FileEntry} {j : Nat} (kept : entry.keptIndex = some ↑j)
    (found : entries[j]? = some target) (inTree : target.isSession = false) :
    (convertKept entries entry).keptId = target.id := by
  obtain ⟨id,parentId,kind⟩ := entry
  cases kind with
  | session version => cases kept
  | other => cases kept
  | compaction keptId keptIndex =>
    obtain rfl : keptIndex = some ↑j := kept
    simp [convertKept, FileEntry.keptId, entryAt_nat, found, inTree]

/- One entry of the tree with its id and parent, and as the loop leaves it. -/
def renamedEntry (sources : Nat → IdSource) (s : State) (entry : FileEntry) : FileEntry :=
  { entry with id := some (firstDraw (sources s.calls)), parentId := s.prevId }

def migratedEntry (sources : Nat → IdSource) (s : State) (i : Nat) (entry : FileEntry) : FileEntry :=
  convertKept (s.entries.set i (renamedEntry sources s entry)) (renamedEntry sources s entry)

theorem migrateEntry_session (sources : Nat → IdSource) {entry : FileEntry} (here : s.entries[i]? = some entry)
    (header : entry.isSession = true) :
    migrateEntry sources [] s i = { s with entries := s.entries.set i { entry with kind := .session (some 2) } } := by
  unfold migrateEntry
  rw [here]
  exact if_pos header

theorem migrateEntry_tree (sources : Nat → IdSource) {entry : FileEntry} (here : s.entries[i]? = some entry)
    (inTree : entry.isSession = false) :
    migrateEntry sources [] s i =
      ⟨s.entries.set i (migratedEntry sources s i entry),some (firstDraw (sources s.calls)),s.calls + 1⟩ := by
  unfold migrateEntry migratedEntry renamedEntry
  rw [here]
  simp only [inTree, Bool.false_eq_true, if_false, generateId_unchecked, List.set_set]

/-- What stands before and behind the turn of the loop. -/
structure Inv (sources : Nat → IdSource) (before : List FileEntry) (k : Nat) (s : State) : Prop where
  behind : ∀ i, k ≤ i → s.entries[i]? = before[i]?
  kinds : ∀ i : Nat, (s.entries[i]?).map FileEntry.isSession = (before[i]?).map FileEntry.isSession
  ids : (treeEntries (s.entries.take k)).map FileEntry.id = (drawn sources s.calls).map some
  prev : s.prevId = ((treeEntries (s.entries.take k)).getLast?).bind FileEntry.id
  linked : (treeEntries (s.entries.take k)).IsChain fun parent child => child.parentId = parent.id
  root : ∀ entry ∈ (treeEntries (s.entries.take k)).head?, entry.parentId = none
  kept : ∀ (i j : Nat) (entry target : FileEntry), i < k → before[i]? = some entry →
    entry.keptIndex = some ↑j → before[j]? = some target → target.isSession = false →
      ∃ entry', s.entries[i]? = some entry' ∧
        entry'.keptId = if j ≤ i then (s.entries[j]?).bind FileEntry.id else none

theorem take_set (inside : k < entries.length) (entry : FileEntry) :
    (entries.set k entry).take (k + 1) = entries.take k ++ [entry] := by
  have there : k < (entries.set k entry).length := by simpa using inside
  rw [List.take_succ_eq_append_getElem there, List.getElem_set_self, List.take_set_of_le (Nat.le_refl k)]

theorem treeEntries_snoc (entries : List FileEntry) {entry : FileEntry} (inTree : entry.isSession = false) :
    treeEntries (entries ++ [entry]) = treeEntries entries ++ [entry] := by
  simp [treeEntries, List.filter_append, inTree]

/-- The turn at a header changes none but the header. -/
theorem inv_session {before : List FileEntry} {entry : FileEntry} (inv : Inv sources before k s)
    (here : before[k]? = some entry) (header : entry.isSession = true) :
    Inv sources before (k + 1) (migrateEntry sources [] s k) := by
  have now : s.entries[k]? = some entry := by rw [inv.behind k (Nat.le_refl k), here]
  obtain ⟨inside,-⟩ := List.getElem?_eq_some_iff.mp now
  rw [migrateEntry_session sources now header]
  have same : treeEntries ((s.entries.set k { entry with kind := .session (some 2) }).take (k + 1)) =
      treeEntries (s.entries.take k) := by
    rw [take_set inside]
    simp [treeEntries, List.filter_append, FileEntry.isSession]
  constructor
  · intro i behind
    rw [List.getElem?_set_ne (by omega)]
    exact inv.behind i (by omega)
  · intro i
    rcases eq_or_ne k i with rfl | differs
    · rw [List.getElem?_set_self inside, here, Option.map_some, Option.map_some, header]
      rfl
    · rw [List.getElem?_set_ne differs]
      exact inv.kinds i
  · rw [same]
    exact inv.ids
  · rw [same]
    exact inv.prev
  · rw [same]
    exact inv.linked
  · rw [same]
    exact inv.root
  · intro i j compaction target before_next found kept there inTree
    rcases Nat.lt_or_eq_of_le (Nat.le_of_lt_succ before_next) with earlier | rfl
    · obtain ⟨entry',now',keptId⟩ := inv.kept i j compaction target earlier found kept there inTree
      refine ⟨entry',by rw [List.getElem?_set_ne (by omega), now'],?_⟩
      rw [keptId]
      split
      · rw [List.getElem?_set_ne (by omega)]
      · rfl
    · rw [here] at found
      cases found
      obtain ⟨id,parentId,kind⟩ := entry
      cases kind with
      | session version => cases kept
      | compaction keptId index => cases header
      | other => cases header

/-- The turn at an entry of the tree puts it behind the tree so far. -/
theorem inv_tree {before : List FileEntry} (version1 : Version1 before) {entry : FileEntry} (inv : Inv sources before k s)
    (here : before[k]? = some entry) (inTree : entry.isSession = false) : Inv sources before (k + 1) (migrateEntry sources [] s k) := by
  have now : s.entries[k]? = some entry := by rw [inv.behind k (Nat.le_refl k), here]
  obtain ⟨inside,-⟩ := List.getElem?_eq_some_iff.mp now
  rw [migrateEntry_tree sources now inTree]
  obtain ⟨id_eq,parent_eq,kind_eq⟩ :
      (migratedEntry sources s k entry).id = some (firstDraw (sources s.calls)) ∧
      (migratedEntry sources s k entry).parentId = s.prevId ∧
      (migratedEntry sources s k entry).isSession = entry.isSession :=
    convertKept_frame (s.entries.set k (renamedEntry sources s entry)) (renamedEntry sources s entry)
  have grown : treeEntries ((s.entries.set k (migratedEntry sources s k entry)).take (k + 1)) =
      treeEntries (s.entries.take k) ++ [migratedEntry sources s k entry] := by
    rw [take_set inside, treeEntries_snoc _ (kind_eq.trans inTree)]
  constructor
  · intro i behind
    rw [List.getElem?_set_ne (by omega)]
    exact inv.behind i (by omega)
  · intro i
    rcases eq_or_ne k i with rfl | differs
    · rw [List.getElem?_set_self inside, here, Option.map_some, Option.map_some, kind_eq]
    · rw [List.getElem?_set_ne differs]
      exact inv.kinds i
  · rw [grown, List.map_append, inv.ids, drawn, drawn, List.range_succ]
    simp [id_eq]
  · rw [grown, List.getLast?_concat, Option.bind_some, id_eq]
  · rw [grown, List.isChain_append]
    refine ⟨inv.linked,.singleton _,?_⟩
    intro parent last child first
    obtain rfl : migratedEntry sources s k entry = child := by simpa using first
    rw [parent_eq, inv.prev, Option.mem_def.mp last]
    rfl
  · rw [grown]
    intro first is_first
    cases tree : treeEntries (s.entries.take k) with
    | nil =>
      rw [tree] at is_first
      obtain rfl : migratedEntry sources s k entry = first := by simpa using is_first
      rw [parent_eq, inv.prev, tree]
      rfl
    | cons top rest =>
      rw [tree] at is_first
      exact inv.root first (by rw [tree]; exact is_first)
  · intro i j compaction target before_next found kept there targetInTree
    rcases Nat.lt_or_eq_of_le (Nat.le_of_lt_succ before_next) with earlier | rfl
    · obtain ⟨entry',now',keptId⟩ := inv.kept i j compaction target earlier found kept there targetInTree
      refine ⟨entry',by rw [List.getElem?_set_ne (by omega), now'],?_⟩
      rw [keptId]
      split
      · rw [List.getElem?_set_ne (by omega)]
      · rfl
    · rw [here] at found
      cases found
      refine ⟨_,List.getElem?_set_self inside,?_⟩
      rcases Nat.lt_trichotomy j i with less | rfl | more
      · rw [if_pos (Nat.le_of_lt less), List.getElem?_set_ne (by omega)]
        have kind := inv.kinds j
        rw [there, Option.map_some] at kind
        obtain ⟨target',there',kind'⟩ := Option.map_eq_some_iff.mp kind
        rw [there', Option.bind_some]
        refine convertKept_kept kept ?_ (kind'.trans targetInTree)
        rw [List.getElem?_set_ne (by omega), there']
      · rw [if_pos (Nat.le_refl j), List.getElem?_set_self inside, Option.bind_some, id_eq]
        exact @convertKept_kept _ (renamedEntry sources s entry) (renamedEntry sources s entry) j kept
          (List.getElem?_set_self inside) inTree
      · rw [if_neg (by omega)]
        have absent : target.id = none := version1 target (List.mem_of_getElem? there) targetInTree
        rw [← absent]
        refine convertKept_kept kept ?_ targetInTree
        rw [List.getElem?_set_ne (by omega), inv.behind j (by omega), there]

theorem inv_run (sources : Nat → IdSource) {before : List FileEntry} (version1 : Version1 before) :
    ∀ k ≤ before.length,
      Inv sources before k ((List.range k).foldl (migrateEntry sources []) ⟨before,none,0⟩) := by
  intro k
  induction k with
  | zero =>
    intro _
    exact ⟨fun _ _ => rfl,fun _ => rfl,rfl,rfl,.nil,by simp [treeEntries],by omega⟩
  | succ k ih =>
    intro bound
    have inv := ih (by omega)
    rw [List.range_succ, List.foldl_append, List.foldl_cons, List.foldl_nil]
    have here : before[k]? = some before[k] := List.getElem?_eq_getElem bound
    cases header : before[k].isSession with
    | true => exact inv_session inv here header
    | false => exact inv_tree version1 inv here header

theorem treeEntries_length (entries : List FileEntry) :
    (treeEntries entries).length = (entries.map FileEntry.isSession).count false := by
  induction entries with
  | nil => rfl
  | cons entry rest ih =>
    unfold treeEntries at ih ⊢
    cases header : entry.isSession with
    | true => simp [header, ih]
    | false => simp [header, ih]

/-- The migration does what it should exactly when the first identifiers drawn for the entries differ and
no compaction names an entry behind itself. -/
theorem migration_iff (sources : Nat → IdSource) (entries : List FileEntry) (version1 : Version1 entries) :
    Migrated entries (migrateV1ToV2 sources entries) ↔
      (drawn sources (treeEntries entries).length).Nodup ∧ NoForwardKept entries := by
  have inv := inv_run sources version1 entries.length (Nat.le_refl _)
  unfold migrateV1ToV2
  generalize (List.range entries.length).foldl (migrateEntry sources []) ⟨entries,none,0⟩ = s at inv
  have all : s.entries.take entries.length = s.entries := by
    refine List.take_of_length_le (List.getElem?_eq_none_iff.mp ?_)
    rw [inv.behind _ (Nat.le_refl _), List.getElem?_eq_none (Nat.le_refl _)]
  have same_kinds : s.entries.map FileEntry.isSession = entries.map FileEntry.isSession := by
    refine List.ext_getElem? ?_
    intro i
    rw [List.getElem?_map, List.getElem?_map, inv.kinds i]
  have calls : s.calls = (treeEntries entries).length := by
    have counted := congrArg List.length inv.ids
    rw [all, List.length_map, treeEntries_length, same_kinds, ← treeEntries_length] at counted
    simpa [drawn] using counted.symm
  have ids := inv.ids
  have linked := inv.linked
  have root := inv.root
  rw [all] at ids linked root
  have named : ∀ entry ∈ treeEntries s.entries, entry.id.isSome = true := by
    intro entry mem
    have listed := List.mem_map_of_mem (f := FileEntry.id) mem
    rw [ids] at listed
    obtain ⟨id,-,here⟩ := List.mem_map.mp listed
    rw [← here]
    rfl
  have distinct : ((treeEntries s.entries).map FileEntry.id).Nodup ↔
      (drawn sources (treeEntries entries).length).Nodup := by
    rw [ids, calls]
    exact List.nodup_map_iff fun one two same => Option.some.inj same
  constructor
  · intro migrated
    refine ⟨distinct.mp migrated.distinct,?_⟩
    intro i j entry target found kept there inTree
    obtain ⟨entry',target',found',there',same⟩ := migrated.kept i j entry target found kept there inTree
    obtain ⟨inside,-⟩ := List.getElem?_eq_some_iff.mp found
    obtain ⟨left,left_found,keptId⟩ := inv.kept i j entry target inside found kept there inTree
    rw [found'] at left_found
    cases left_found
    by_contra behind
    rw [if_neg behind, same] at keptId
    have kind := inv.kinds j
    rw [there, there', Option.map_some, Option.map_some, inTree] at kind
    have member : target' ∈ treeEntries s.entries :=
      List.mem_filter.mpr ⟨List.mem_of_getElem? there',by simp [Option.some.inj kind]⟩
    have has_id := named target' member
    rw [keptId] at has_id
    cases has_id
  · intro both
    refine ⟨named,distinct.mpr both.1,linked,root,?_⟩
    intro i j entry target found kept there inTree
    obtain ⟨inside,-⟩ := List.getElem?_eq_some_iff.mp found
    obtain ⟨entry',found',keptId⟩ := inv.kept i j entry target inside found kept there inTree
    rw [if_pos (both.2 i j entry target found kept there inTree)] at keptId
    have kind := inv.kinds j
    rw [there, Option.map_some] at kind
    obtain ⟨target',there',-⟩ := Option.map_eq_some_iff.mp kind
    rw [there', Option.bind_some] at keptId
    exact ⟨entry',target',found',there',keptId⟩

/- A header, a message, and a compaction that keeps from the message on. -/
def headerAndTwo : List FileEntry :=
  [⟨some (js "s"),none,.session none⟩, ⟨none,none,.other⟩, ⟨none,none,.compaction none (some 1)⟩]

theorem migration_iff_two : Migrated headerAndTwo
    (migrateV1ToV2 (fun call => ⟨[if call = 0 then js "aaaaaaaa" else js "bbbbbbbb"],[]⟩) headerAndTwo) := by
  refine (migration_iff _ headerAndTwo (by decide)).mpr ⟨by decide,?_⟩
  intro i j entry target found kept there inTree
  have places : ∀ i < 3, ∀ j < 3, i < j →
      ((headerAndTwo[i]?).bind FileEntry.keptIndex ≠ some (Int.ofNat j)) := by decide
  obtain ⟨i_inside,-⟩ := List.getElem?_eq_some_iff.mp found
  obtain ⟨j_inside,-⟩ := List.getElem?_eq_some_iff.mp there
  by_contra behind
  refine places i i_inside j j_inside (by omega) ?_
  rw [found]
  exact kept

/-- Two entries draw the same identifier. -/
theorem same_draw_same_id : ¬ ∀ (sources : Nat → IdSource) (entries : List FileEntry), Version1 entries →
    Migrated entries (migrateV1ToV2 sources entries) := by
  intro claim
  have migrated := claim (fun _ => ⟨[js "aaaaaaaa", js "bbbbbbbb"],js "next"⟩)
    [⟨none,none,.other⟩, ⟨none,none,.other⟩] (by decide)
  exact absurd migrated.distinct (by decide)

end Migration
