import OpenAgents.Session.Manager

/- The tree that the append operations of a session manager build, and the paths
   it has. -/
namespace Session
open JsText JsJson Conversation OrderedMap ParentChain

/- Operations -/

inductive SessionOp where
  | appendMessage (source : IdSource) (now : Int) (message : AgentMessage)
  | appendThinkingLevelChange (source : IdSource) (now : Int) (thinkingLevel : Option JsString)
  | appendServiceTierChange (source : IdSource) (now : Int) (serviceTier : Option JsString)
  | appendModeChange (source : IdSource) (now : Int) (mode : JsString) (data : Option Json)
  | appendModelChange (source : IdSource) (now : Int) (model : JsString) (role : Option JsString)
  | appendSessionInit (source : IdSource) (now : Int) (systemPrompt task : JsString)
      (tools : List JsString) (outputSchema : Option Json)
  | appendCompaction (source : IdSource) (now : Int) (compaction : Compaction)
  | appendCustomEntry (source : IdSource) (now : Int) (customType : JsString) (data : Option Json)
  | appendCustomMessageEntry (source : IdSource) (now : Int) (customType : JsString)
      (content : MessageContent) (display : Bool) (details : Option Json) (attribution : Option JsString)
  | appendMCPToolSelection (source : IdSource) (now : Int) (selectedToolNames : List JsString)
  | appendTtsrInjection (source : IdSource) (now : Int) (ruleNames : List JsString)
  | appendLabelChange (source : IdSource) (now : Int) (targetId : JsString) (label : Option JsString)
  | branch (branchFromId : JsString)
  | resetLeaf
  | branchWithSummary (source : IdSource) (now : Int) (branchFromId : Option JsString) (summary : JsString)

namespace SessionOp

def source? : SessionOp → Option IdSource
  | .appendMessage source .. | .appendThinkingLevelChange source .. | .appendServiceTierChange source ..
  | .appendModeChange source .. | .appendModelChange source .. | .appendSessionInit source ..
  | .appendCompaction source .. | .appendCustomEntry source .. | .appendCustomMessageEntry source ..
  | .appendMCPToolSelection source .. | .appendTtsrInjection source .. | .appendLabelChange source ..
  | .branchWithSummary source .. => some source
  | .branch _ | .resetLeaf => none

/- A call that throws leaves the manager as it was. -/
def orUnchanged (mgr : SessionManager) : Except JsString SessionManager → SessionManager
  | .ok changed => changed
  | .error _ => mgr

def apply (mgr : SessionManager) : SessionOp → SessionManager
  | .appendMessage source now message => mgr.appendMessage source now message
  | .appendThinkingLevelChange source now level => mgr.appendThinkingLevelChange source now level
  | .appendServiceTierChange source now tier => mgr.appendServiceTierChange source now tier
  | .appendModeChange source now mode data => mgr.appendModeChange source now mode data
  | .appendModelChange source now model role => mgr.appendModelChange source now model role
  | .appendSessionInit source now prompt task tools schema =>
      mgr.appendSessionInit source now prompt task tools schema
  | .appendCompaction source now compaction => mgr.appendCompaction source now compaction
  | .appendCustomEntry source now customType data => mgr.appendCustomEntry source now customType data
  | .appendCustomMessageEntry source now customType content display details attribution =>
      mgr.appendCustomMessageEntry source now customType content display details attribution
  | .appendMCPToolSelection source now names => mgr.appendMCPToolSelection source now names
  | .appendTtsrInjection source now names => mgr.appendTtsrInjection source now names
  | .appendLabelChange source now targetId label =>
      orUnchanged mgr (mgr.appendLabelChange source now targetId label)
  | .branch branchFromId => orUnchanged mgr (mgr.branch branchFromId)
  | .resetLeaf => mgr.resetLeaf
  | .branchWithSummary source now branchFromId summary =>
      orUnchanged mgr (mgr.branchWithSummary source now branchFromId summary)

end SessionOp

/-- No drawn id is empty, and the snowflake is not in use. -/
structure IdSource.Fresh (source : IdSource) (used : List JsString) : Prop where
  named : ∀ id ∈ source.snowflake :: source.randomUUIDs, id ≠ []
  unused : source.snowflake ∉ used

inductive Reachable : SessionManager → Prop where
  | newSession (cwd sessionId : JsString) (persist : Bool) (sessionFile parentSession : Option JsString)
      (now : Int) : Reachable (.newSession cwd sessionId persist sessionFile parentSession now)
  | step {mgr : SessionManager} (op : SessionOp) (before : Reachable mgr)
      (fresh : ∀ source ∈ op.source?, source.Fresh mgr.usedIds) : Reachable (op.apply mgr)

/- Trees -/

/-- Every parent stands in front of its children. -/
structure EntryTree (entries : List SessionEntry) : Prop where
  distinct : (entries.map SessionEntry.id).Nodup
  named : ∀ e ∈ entries, e.id ≠ []
  parents : ∀ early e late, entries = early ++ e :: late → ∀ p, e.parentId = some p →
    p ∈ early.map SessionEntry.id

structure IsTree (mgr : SessionManager) : Prop where
  tree : EntryTree mgr.getEntries
  indexed : mgr.byId = index mgr.getEntries
  leaf : ∀ l ∈ mgr.leafId, l ∈ mgr.getEntries.map SessionEntry.id
  header : ∃ h, mgr.getHeader = some h

variable {source : IdSource} {entries : List SessionEntry} {e leaf : SessionEntry} {mgr : SessionManager}

theorem generateId_fresh {used : List JsString} (fresh : source.Fresh used) :
    generateId source used ∉ used ∧ generateId source used ≠ [] := by
  unfold generateId
  cases found : (source.randomUUIDs.take 100).find? fun id => id ∉ used with
  | none => exact ⟨fresh.unused,fresh.named _ (by simp)⟩
  | some id =>
    have unused := List.find?_some found
    have drawn := List.mem_of_mem_take (List.mem_of_find?_eq_some found)
    exact ⟨by simpa using unused,fresh.named id (List.mem_cons_of_mem _ drawn)⟩

theorem EntryTree.snoc (tree : EntryTree entries) (unused : e.id ∉ entries.map SessionEntry.id) (named : e.id ≠ [])
    (parent : ∀ p ∈ e.parentId, p ∈ entries.map SessionEntry.id) : EntryTree (entries ++ [e]) where
  distinct := by
    rw [List.map_append, List.nodup_append]
    refine ⟨tree.distinct,by simp,?_⟩
    intro a old b new same
    obtain rfl : b = e.id := by simpa using new
    exact unused (same ▸ old)
  named := by
    intro x mem
    rcases List.mem_append.mp mem with old | new
    · exact tree.named x old
    · obtain rfl : x = e := by simpa using new
      exact named
  parents := by
    intro early x late shape p link
    rcases List.eq_nil_or_concat' late with rfl | ⟨rest,last,rfl⟩
    · obtain ⟨rfl,same⟩ := List.append_inj' shape rfl
      obtain rfl : e = x := by simpa using same
      exact parent p link
    · have inner : entries ++ [e] = (early ++ x :: rest) ++ [last] := by simpa using shape
      obtain ⟨shape_before,-⟩ := List.append_inj' inner rfl
      exact tree.parents early x rest shape_before p link

theorem IsTree.usedIds_eq (is_tree : IsTree mgr) : mgr.usedIds = mgr.getEntries.map SessionEntry.id := by
  rw [SessionManager.usedIds, is_tree.indexed, index_keys]

theorem IsTree.has_iff (is_tree : IsTree mgr) (id : JsString) :
    has mgr.byId id = true ↔ id ∈ mgr.getEntries.map SessionEntry.id := by
  rw [OrderedMap.has_iff, ← is_tree.usedIds_eq]
  rfl

theorem IsTree.at_leaf (is_tree : IsTree mgr) {leafId : Option JsString}
    (known : ∀ l ∈ leafId, l ∈ mgr.getEntries.map SessionEntry.id) : IsTree { mgr with leafId := leafId } :=
  ⟨is_tree.tree,is_tree.indexed,known,is_tree.header⟩

theorem IsTree.relabelled (is_tree : IsTree mgr) (labels : OMap JsString JsString) :
    IsTree { mgr with labelsById := labels } :=
  ⟨is_tree.tree,is_tree.indexed,is_tree.leaf,is_tree.header⟩

theorem IsTree.appendBody (is_tree : IsTree mgr) (fresh : source.Fresh mgr.usedIds) (now : Int) (body : EntryBody) :
    IsTree (mgr.appendBody source now body) := by
  obtain ⟨unused,named⟩ := generateId_fresh fresh
  have entries : (mgr.appendBody source now body).getEntries =
      mgr.getEntries ++ [⟨generateId source mgr.usedIds,mgr.leafId,now,body⟩] := by
    simp [SessionManager.appendBody, SessionManager.appendEntry, SessionManager.getEntries,
      FileEntry.entry?]
  constructor
  · rw [entries]
    exact is_tree.tree.snoc (is_tree.usedIds_eq ▸ unused) named is_tree.leaf
  · rw [entries]
    simp only [SessionManager.appendBody, SessionManager.appendEntry]
    rw [put_new _ unused, is_tree.indexed]
    simp [index]
  · rw [entries]
    intro l is_leaf
    simp only [SessionManager.appendBody, SessionManager.appendEntry, Option.mem_def,
      Option.some.injEq] at is_leaf
    simp [← is_leaf]
  · obtain ⟨h,header⟩ := is_tree.header
    refine ⟨h,?_⟩
    simp only [SessionManager.getHeader, SessionManager.appendBody, SessionManager.appendEntry]
    rw [List.findSome?_append]
    rw [SessionManager.getHeader] at header
    simp [header]

/-- What one operation can do: nothing, move the leaf, or append below a leaf. -/
theorem SessionOp.apply_cases (mgr : SessionManager) (op : SessionOp) :
    op.apply mgr = mgr ∨
    (∃ leafId, (∀ l ∈ leafId, has mgr.byId l = true) ∧ op.apply mgr = { mgr with leafId := leafId }) ∨
    ∃ source now body leafId labels, op.source? = some source ∧
      (leafId = mgr.leafId ∨ ∀ l ∈ leafId, has mgr.byId l = true) ∧
      op.apply mgr =
        { ({ mgr with leafId := leafId } : SessionManager).appendBody source now body with
          labelsById := labels } := by
  have appended (source : IdSource) (now : Int) (body : EntryBody) (same : op.source? = some source)
      (made : op.apply mgr = mgr.appendBody source now body) : ∃ source now body leafId labels,
      op.source? = some source ∧ (leafId = mgr.leafId ∨ ∀ l ∈ leafId, has mgr.byId l = true) ∧
        op.apply mgr =
          { ({ mgr with leafId := leafId } : SessionManager).appendBody source now body with
            labelsById := labels } :=
    ⟨source,now,body,mgr.leafId,mgr.labelsById,same,.inl rfl,made⟩
  cases op with
  | appendLabelChange source now targetId label =>
    simp only [apply, SessionManager.appendLabelChange]
    split
    · right
      right
      exact ⟨source,now,.label targetId label,mgr.leafId,_,rfl,.inl rfl,rfl⟩
    · exact .inl rfl
  | branch branchFromId =>
    simp only [apply, SessionManager.branch]
    split
    · rename_i known
      right
      left
      exact ⟨some branchFromId,by simpa using known,rfl⟩
    · exact .inl rfl
  | resetLeaf => exact .inr (.inl ⟨none,by simp,rfl⟩)
  | branchWithSummary source now branchFromId summary =>
    simp only [apply, SessionManager.branchWithSummary]
    split
    · rename_i known
      right
      right
      refine ⟨source,now,_,branchFromId,mgr.labelsById,rfl,.inr ?_,rfl⟩
      intro l is_leaf
      cases is_leaf
      simpa using known
    · exact .inl rfl
  | _ => exact .inr (.inr (appended _ _ _ rfl rfl))

theorem reachable_isTree (reachable : Reachable mgr) : IsTree mgr := by
  induction reachable with
  | newSession cwd sessionId persist sessionFile parentSession now =>
    have empty : EntryTree [] := ⟨List.nodup_nil,by simp,by simp⟩
    refine ⟨empty,rfl,?_,⟨_,rfl⟩⟩
    intro l is_leaf
    cases is_leaf
  | @step mgr op _ fresh is_tree =>
    rcases op.apply_cases mgr with same | ⟨leafId,known,moved⟩ |
      ⟨source,now,body,leafId,labels,from_source,known,appended⟩
    · rw [same]
      exact is_tree
    · rw [moved]
      exact is_tree.at_leaf fun l is_leaf => (is_tree.has_iff l).mp (known l is_leaf)
    · rw [appended]
      have at_leaf : IsTree { mgr with leafId := leafId } := by
        refine is_tree.at_leaf ?_
        rcases known with rfl | known
        · exact is_tree.leaf
        · exact fun l is_leaf => (is_tree.has_iff l).mp (known l is_leaf)
      exact (at_leaf.appendBody (fresh source from_source) now body).relabelled labels

/- Paths of a tree -/

theorem EntryTree.parent_earlier (tree : EntryTree entries) {child parent : SessionEntry} (mem : child ∈ entries)
    (link : parentEntry (index entries) child = some parent) : entries.idxOf parent < entries.idxOf child := by
  obtain ⟨parent_mem,named⟩ := lookup_source link
  obtain ⟨early,late,shape⟩ := List.append_of_mem mem
  have above := tree.parents early child late shape parent.id named
  obtain ⟨above_entry,above_mem,same_id⟩ := List.mem_map.mp above
  obtain rfl : above_entry = parent := by
    refine List.inj_on_of_nodup_map tree.distinct ?_ parent_mem same_id
    rw [shape]
    exact List.mem_append_left _ above_mem
  have fresh : child ∉ early := by
    have distinct := tree.distinct.of_map
    rw [shape, List.nodup_append] at distinct
    exact fun inside => distinct.2.2 child inside child (by simp) rfl
  rw [shape, List.idxOf_append_of_mem above_mem, List.idxOf_append_of_notMem fresh]
  have bound := List.idxOf_lt_length_of_mem above_mem
  simp
  omega

theorem EntryTree.rootless (tree : EntryTree entries) (mem : e ∈ entries) (root : parentEntry (index entries) e = none) : e.parentId = none := by
  cases link : e.parentId with
  | none => rfl
  | some p =>
    obtain ⟨early,late,shape⟩ := List.append_of_mem mem
    obtain ⟨parent,parent_mem,rfl⟩ := List.mem_map.mp (tree.parents early e late shape p link)
    have inside : parent ∈ entries := by
      rw [shape]
      exact List.mem_append_left _ parent_mem
    rw [parentEntry, link, lookup_index tree.distinct inside (tree.named parent inside)] at root
    cases root

theorem EntryTree.sessionPath {entries path : List SessionEntry} (tree : EntryTree entries)
    (inside : ∀ e ∈ path, e ∈ entries) (distinct : (path.map SessionEntry.id).Nodup)
    (trail : Trail (parentEntry (index entries)) path) : SessionPath path where
  distinct := distinct
  named := fun e mem => tree.named e (inside e mem)
  linked := by
    refine trail.linked.imp ?_
    intro parent child link
    exact (lookup_source link).2
  root := by
    intro e first
    exact tree.rootless (inside e (List.mem_of_mem_head? first)) (trail.root e first)

/-- The branch of an entry: a path inside the tree that ends at the entry. -/
structure IsBranch (entries : List SessionEntry) (leaf : SessionEntry) (path : List SessionEntry) :
    Prop where
  inside : ∀ e ∈ path, e ∈ entries
  last : path.getLast? = some leaf
  trail : Trail (parentEntry (index entries)) path
  is_path : SessionPath path

theorem EntryTree.branch (tree : EntryTree entries) (mem : leaf ∈ entries) : ∃ path, pathFrom (index entries) (some leaf) = some path ∧
      IsBranch entries leaf path := by
  have falls : ∀ child parent, child ∈ entries → parentEntry (index entries) child = some parent →
      parent ∈ entries ∧ entries.idxOf parent < entries.idxOf child := by
    intro child parent child_mem link
    exact ⟨(lookup_source link).1,tree.parent_earlier child_mem link⟩
  have enough : entries.idxOf leaf < (index entries).length + 1 := by
    have bound := List.idxOf_lt_length_of_mem mem
    simp only [index, List.length_map]
    omega
  obtain ⟨path,climbed,ranked,ordered⟩ :=
    climb_ranked (· ∈ entries) (entries.idxOf ·) falls leaf mem enough
  obtain ⟨trail,last⟩ := trail_of_climb climbed
  have inside : ∀ e ∈ path, e ∈ entries := fun e e_mem => (ranked e e_mem).1
  refine ⟨path,climbed,inside,last,trail,tree.sessionPath inside ?_ trail⟩
  refine List.Nodup.map_on ?_ (ordered.imp fun lower same => ?_)
  · intro a a_mem b b_mem same
    exact List.inj_on_of_nodup_map tree.distinct (inside a a_mem) (inside b b_mem) same
  · exact absurd (congrArg entries.idxOf same) (Nat.ne_of_lt lower)

theorem IsTree.getBranch (is_tree : IsTree mgr) (mem : leaf ∈ mgr.getEntries) : ∃ path, mgr.getBranch (some leaf.id) = some path ∧
      IsBranch mgr.getEntries leaf path := by
  obtain ⟨path,found,branch⟩ := is_tree.tree.branch mem
  refine ⟨path,?_,branch⟩
  rw [SessionManager.getBranch, Option.some_or, is_tree.indexed,
    lookup_index is_tree.tree.distinct mem (is_tree.tree.named leaf mem), found]

end Session
