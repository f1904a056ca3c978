import OpenAgents.Session.Tree
import OpenAgents.Lib.LastIndex

/- Cutting a session down to one branch: what the new entries say, and when the
   conversation survives. -/
namespace Session
open JsText JsJson Conversation OrderedMap ParentChain LastIndex
open SessionManager (notLabel)

/-- The conversation of a branch, before and after the entries are replaced. -/
structure Preserves (old : SessionManager) (leafId : JsString) (path : List SessionEntry)
    (new : SessionManager) : Prop where
  context : ∃ before after,
    buildSessionContext old.getEntries (.named leafId) (some old.byId) = some before ∧
    new.buildSessionContext = some after ∧
    after.messages = before.messages ∧ after.models = before.models ∧ after.mode = before.mode
  parents : ∀ e ∈ new.getEntries, e.parentId = none ∨ ∃ p ∈ new.getEntries, e.parentId = some p.id
  kept : ∀ e ∈ new.getEntries, ∀ c, e.compaction? = some c →
    ∃ p ∈ new.getEntries, p ∈ path ∧ p.id = c.firstKeptEntryId

/-- No entry hangs below a label, and no compaction keeps from a label or from elsewhere. -/
structure LabelFree (path : List SessionEntry) : Prop where
  parents : ∀ e ∈ path, notLabel e = true → ∀ p ∈ path, e.parentId = some p.id → notLabel p = true
  kept : ∀ e ∈ path, ∀ c, e.compaction? = some c →
    ∃ p ∈ path, notLabel p = true ∧ p.id = c.firstKeptEntryId

/-- The generator never draws an id of the tree, and no snowflake comes twice. -/
structure FreshSources (ids : Nat → IdSource) (old : List JsString) : Prop where
  drawn : ∀ k, ∀ id ∈ (ids k).snowflake :: (ids k).randomUUIDs, id ≠ [] ∧ id ∉ old
  snowflake : ∀ j k, j < k → (ids k).snowflake ∉ (ids j).snowflake :: (ids j).randomUUIDs

variable {e : SessionEntry}

/- Labels say nothing -/

theorem appendMessage_label (label : notLabel e = false) : appendMessage e = none := by
  unfold notLabel SessionEntry.isLabel at label
  unfold appendMessage
  cases body : e.body <;> simp_all

theorem note_label (s : PathSettings) (label : notLabel e = false) : s.note e = s := by
  unfold notLabel SessionEntry.isLabel at label
  unfold PathSettings.note
  cases body : e.body <;> simp_all

theorem compaction_notLabel {c : Compaction} (body : e.compaction? = some c) : notLabel e = true := by
  unfold SessionEntry.compaction? at body
  unfold notLabel SessionEntry.isLabel
  cases is : e.body <;> simp_all

theorem filterMap_notLabel (path : List SessionEntry) :
    (path.filter notLabel).filterMap appendMessage = path.filterMap appendMessage := by
  induction path with
  | nil => rfl
  | cons e rest ih =>
    cases kept : notLabel e with
    | true => rw [List.filter_cons_of_pos kept, List.filterMap_cons, List.filterMap_cons, ih]
    | false =>
      rw [List.filter_cons_of_neg (by simp [kept]), List.filterMap_cons, appendMessage_label kept, ih]

theorem pathSettings_notLabel (path : List SessionEntry) :
    pathSettings (path.filter notLabel) = pathSettings path := by
  unfold pathSettings
  generalize (⟨.empty,false⟩ : PathSettings) = start
  induction path generalizing start with
  | nil => rfl
  | cons e rest ih =>
    cases kept : notLabel e with
    | true => rw [List.filter_cons_of_pos kept, List.foldl_cons, List.foldl_cons, ih]
    | false => rw [List.filter_cons_of_neg (by simp [kept]), List.foldl_cons, note_label start kept, ih]

theorem keptFrom_notLabel {path : List SessionEntry} {id : JsString}
    (named : ∀ e ∈ path, e.id = id → notLabel e = true) :
    (keptFrom path id).filter notLabel = keptFrom (path.filter notLabel) id := by
  unfold keptFrom
  induction path with
  | nil => rfl
  | cons e rest ih =>
    have later := ih fun x mem => named x (List.mem_cons_of_mem e mem)
    by_cases here : e.id = id
    · have kept := named e (by simp) here
      simp [here, kept]
    · cases kept : notLabel e with
      | true => simpa [here, kept] using later
      | false => simpa [here, kept] using later

/-- A path is plain, or it splits at its latest compaction. -/
theorem latest_compaction_cases (path : List SessionEntry) :
    (∀ e ∈ path, e.isCompaction = false) ∨
    ∃ front entry back c, path = front ++ entry :: back ∧ entry.compaction? = some c ∧
      ∀ e ∈ back, e.isCompaction = false := by
  cases found : lastIndex SessionEntry.isCompaction path with
  | none => exact .inl (lastIndex_none_iff.mp found)
  | some i =>
    obtain ⟨front,entry,back,shape,-,compacts,plain⟩ := lastIndex_some found
    obtain ⟨c,body⟩ := Option.isSome_iff_exists.mp compacts
    exact .inr ⟨front,entry,back,c,shape,body,plain⟩

theorem pathContext_notLabel {path : List SessionEntry} (distinct : (path.map SessionEntry.id).Nodup)
    (named : ∀ entry ∈ path, ∀ c, entry.compaction? = some c →
      ∀ e ∈ path, e.id = c.firstKeptEntryId → notLabel e = true) :
    pathContext (path.filter notLabel) = pathContext path := by
  have emitted : emittedMessages (path.filter notLabel) = emittedMessages path := by
    rcases latest_compaction_cases path with plain | ⟨front,entry,back,c,rfl,body,plain⟩
    · rw [emitted_plain plain, emitted_plain fun e mem => plain e (List.mem_of_mem_filter mem),
        filterMap_notLabel]
    · have shape : (front ++ entry :: back).filter notLabel =
          front.filter notLabel ++ entry :: back.filter notLabel := by
        rw [List.filter_append, List.filter_cons_of_pos (compaction_notLabel body)]
      have kept : (keptFrom front c.firstKeptEntryId).filter notLabel =
          keptFrom (front.filter notLabel) c.firstKeptEntryId :=
        keptFrom_notLabel fun e mem same =>
          named entry (by simp) c body e (List.mem_append_left _ mem) same
      have filtered_distinct :
          ((front.filter notLabel ++ entry :: back.filter notLabel).map SessionEntry.id).Nodup := by
        rw [← shape]
        exact distinct.sublist (List.filter_sublist.map _)
      rw [shape, emitted_split distinct body plain,
        emitted_split filtered_distinct body fun e mem => plain e (List.mem_of_mem_filter mem),
        ← kept, filterMap_notLabel, filterMap_notLabel]
  simp only [pathContext, contextMessages, emitted, pathSettings_notLabel]

/- Fresh labels -/

structure LabelChain (old used : List JsString) (parentId : Option JsString) (labels : List SessionEntry) :
    Prop where
  silent : ∀ e ∈ labels, notLabel e = false
  distinct : (labels.map SessionEntry.id).Nodup
  fresh : ∀ e ∈ labels, e.id ≠ [] ∧ e.id ∉ old ∧ e.id ∉ used
  linked : labels.IsChain fun parent child => child.parentId = some parent.id
  first : ∀ e ∈ labels.head?, e.parentId = parentId

theorem LabelChain.nil (old used : List JsString) (parentId : Option JsString) :
    LabelChain old used parentId [] :=
  ⟨by simp,by simp,by simp,.nil,by simp⟩

theorem freshLabels_chain {ids : Nat → IdSource} {old : List JsString} (sources : FreshSources ids old)
    (now : Int) (labels : List (JsString × JsString)) (k : Nat) (used : List JsString)
    (known : ∀ u ∈ used, u ∈ old ∨ ∃ j < k, u ∈ (ids j).snowflake :: (ids j).randomUUIDs)
    (parentId : Option JsString) :
    LabelChain old used parentId (SessionManager.freshLabels ids now labels k used parentId) := by
  induction labels generalizing k used parentId with
  | nil => exact .nil old used parentId
  | cons label rest ih =>
    obtain ⟨targetId,text⟩ := label
    have unused : (ids k).snowflake ∉ used := by
      intro mem
      rcases known _ mem with in_old | ⟨j,earlier,drawn⟩
      · exact (sources.drawn k _ (by simp)).2 in_old
      · exact sources.snowflake j k earlier drawn
    have fresh_source : (ids k).Fresh used := ⟨fun id mem => (sources.drawn k id mem).1,unused⟩
    have fresh := generateId_fresh fresh_source
    have drawn : generateId (ids k) used ∈ (ids k).snowflake :: (ids k).randomUUIDs := by
      unfold generateId
      cases found : ((ids k).randomUUIDs.take 100).find? fun id => id ∉ used with
      | none => simp
      | some id =>
        exact List.mem_cons_of_mem _ (List.mem_of_mem_take (List.mem_of_find?_eq_some found))
    rw [SessionManager.freshLabels]
    generalize generateId (ids k) used = id at fresh drawn
    have later := ih (k + 1) (used ++ [id]) (by
      intro u mem
      rcases List.mem_append.mp mem with before | last
      · rcases known u before with in_old | ⟨j,earlier,from_source⟩
        · exact .inl in_old
        · exact .inr ⟨j,by omega,from_source⟩
      · obtain rfl : u = id := by simpa using last
        exact .inr ⟨k,by omega,drawn⟩) (some id)
    constructor
    · intro e mem
      rcases List.mem_cons.mp mem with rfl | inner
      · rfl
      · exact later.silent e inner
    · rw [List.map_cons, List.nodup_cons]
      refine ⟨?_,later.distinct⟩
      intro mem
      obtain ⟨e,inner,same⟩ := List.mem_map.mp mem
      exact (later.fresh e inner).2.2 (by simp [same])
    · intro e mem
      rcases List.mem_cons.mp mem with rfl | inner
      · exact ⟨fresh.2,(sources.drawn k id drawn).2,fresh.1⟩
      · have inner_fresh := later.fresh e inner
        exact ⟨inner_fresh.1,inner_fresh.2.1,fun in_used =>
          inner_fresh.2.2 (List.mem_append_left _ in_used)⟩
    · rw [List.isChain_cons]
      exact ⟨fun e first => later.first e first,later.linked⟩
    · intro e first
      cases first
      rfl

/- The new path -/

theorem SessionPath.append {path labels : List SessionEntry} {old used : List JsString}
    (is_path : SessionPath path) (inside : ∀ e ∈ path, e.id ∈ old)
    (chain : LabelChain old used (path.getLast?.map SessionEntry.id) labels)
    (hung : path = [] → labels = []) : SessionPath (path ++ labels) where
  distinct := by
    rw [List.map_append, List.nodup_append]
    refine ⟨is_path.distinct,chain.distinct,?_⟩
    intro a a_mem b b_mem same
    obtain ⟨e,e_mem,rfl⟩ := List.mem_map.mp a_mem
    obtain ⟨l,l_mem,rfl⟩ := List.mem_map.mp b_mem
    exact (chain.fresh l l_mem).2.1 (same ▸ inside e e_mem)
  named := by
    intro e mem
    rcases List.mem_append.mp mem with early | late
    · exact is_path.named e early
    · exact (chain.fresh e late).1
  linked := by
    refine List.isChain_append.mpr ⟨is_path.linked,chain.linked,?_⟩
    intro last is_last label is_first
    rw [Option.mem_def] at is_last
    rw [chain.first label is_first, is_last]
    rfl
  root := by
    intro e first
    cases path with
    | nil =>
      rw [hung rfl] at first
      cases first
    | cons x rest => exact is_path.root e first

theorem SessionPath.parent_inside {path : List SessionEntry} (is_path : SessionPath path) (mem : e ∈ path) : e.parentId = none ∨ ∃ p ∈ path, e.parentId = some p.id := by
  obtain ⟨early,late,rfl⟩ := List.append_of_mem mem
  rcases List.eq_nil_or_concat' early with rfl | ⟨before,parent,rfl⟩
  · exact .inl (is_path.root e (by simp))
  · right
    have linked := (List.isChain_append.mp is_path.linked).2.2 parent (by simp) e (by simp)
    exact ⟨parent,by simp,linked⟩

/-- Without labels the branch is still a path, if no entry hangs below a label. -/
theorem IsBranch.without_labels {entries path : List SessionEntry} {leaf : SessionEntry}
    (tree : EntryTree entries) (branch : IsBranch entries leaf path) (free : LabelFree path) :
    SessionPath (path.filter notLabel) := by
  have closed : ∀ x ∈ path, notLabel x = true → ∀ parent ∈ parentEntry (index entries) x,
      notLabel parent = true := by
    intro x mem kept parent link
    obtain ⟨parent_mem,named⟩ := lookup_source link
    rcases branch.is_path.parent_inside mem with root | ⟨p,p_mem,above⟩
    · rw [root] at named
      cases named
    · have same : p = parent := by
        refine List.inj_on_of_nodup_map tree.distinct (branch.inside p p_mem) parent_mem ?_
        rw [above] at named
        exact Option.some.inj named
      rw [← same]
      exact free.parents x mem kept p p_mem above
  refine tree.sessionPath (fun e mem => branch.inside e (List.mem_of_mem_filter mem)) ?_
    (trail_filter branch.trail notLabel closed)
  exact branch.is_path.distinct.sublist (List.filter_sublist.map _)

/- Replaced entries -/

namespace SessionManager

theorem indexEntries_spec (mgr : SessionManager) (empty : mgr.byId = []) (unset : mgr.leafId = none)
    (entries : List SessionEntry) :
    ((entries.map FileEntry.entry).foldl indexEntry mgr).fileEntries = mgr.fileEntries ∧
      ((entries.map FileEntry.entry).foldl indexEntry mgr).byId = indexById entries ∧
      ((entries.map FileEntry.entry).foldl indexEntry mgr).leafId = entries.getLast?.map SessionEntry.id := by
  induction entries using List.reverseRecOn with
  | nil => exact ⟨rfl,empty,unset⟩
  | append_singleton entries e ih =>
    obtain ⟨files,byId,-⟩ := ih
    rw [List.map_append, List.foldl_append]
    generalize (entries.map FileEntry.entry).foldl indexEntry mgr = before at files byId
    refine ⟨files,?_,by simp [indexEntry]⟩
    simp [indexEntry, byId, indexById, ofList]

/-- The entries a branch operation leaves. -/
structure Holds (mgr : SessionManager) (entries : List SessionEntry) : Prop where
  listed : mgr.getEntries = entries
  indexed : mgr.byId = indexById entries
  at_end : mgr.leafId = entries.getLast?.map SessionEntry.id

theorem buildIndex_holds (mgr : SessionManager) (header : SessionHeader) (entries : List SessionEntry)
    (shape : mgr.fileEntries = .session header :: entries.map .entry) : (buildIndex mgr).Holds entries := by
  have listed : mgr.getEntries = entries := by
    rw [getEntries, shape, List.filterMap_cons, List.filterMap_map]
    exact List.filterMap_some
  obtain ⟨files,byId,leaf⟩ :=
    indexEntries_spec { mgr with byId := [], labelsById := [], leafId := none } rfl rfl entries
  have built : buildIndex mgr = (entries.map FileEntry.entry).foldl indexEntry
      { mgr with byId := [], labelsById := [], leafId := none } := by
    rw [buildIndex, shape]
    rfl
  rw [← built] at files byId leaf
  refine ⟨?_,byId,leaf⟩
  rw [getEntries, files]
  exact listed

theorem Holds.context {mgr : SessionManager} {entries : List SessionEntry} (holds : mgr.Holds entries)
    (is_path : SessionPath entries) : mgr.buildSessionContext = some (pathContext entries) := by
  rw [buildSessionContext, holds.listed, holds.indexed, holds.at_end, indexById_eq is_path.distinct]
  rcases List.eq_nil_or_concat' entries with rfl | ⟨early,last,rfl⟩
  · rfl
  · have climbed := is_path.pathFrom_last
    have found := lookup_index is_path.distinct (e := last) (by simp) (is_path.named last (by simp))
    rw [List.getLast?_concat] at climbed ⊢
    simp [Session.buildSessionContext, leafRef, LeafId.text, found, climbed]

end SessionManager

/- What a branch operation makes of a tree. -/

theorem IsTree.context_at {mgr : SessionManager} (is_tree : IsTree mgr) {leaf : SessionEntry}
    (mem : leaf ∈ mgr.getEntries) {path : List SessionEntry}
    (branch : mgr.getBranch (some leaf.id) = some path) :
    buildSessionContext mgr.getEntries (.named leaf.id) (some mgr.byId) = some (pathContext path) := by
  have found : lookupId mgr.byId (some leaf.id) = some leaf := by
    rw [is_tree.indexed]
    exact lookup_index is_tree.tree.distinct mem (is_tree.tree.named leaf mem)
  rw [SessionManager.getBranch, Option.some_or, found] at branch
  simp [buildSessionContext, LeafId.text, found, branch]

theorem branchEntries_split {mgr : SessionManager} (is_tree : IsTree mgr) {ids : Nat → IdSource}
    (sources : FreshSources ids mgr.usedIds) (now : Int) {parentOf : Option JsString → Option JsString}
    (keeps : ∀ id, id ≠ [] → parentOf (some id) = some id) {leaf : SessionEntry} {path : List SessionEntry}
    (branch : IsBranch mgr.getEntries leaf path) :
    ∃ labels, mgr.branchEntries ids now parentOf path = path.filter notLabel ++ labels ∧
      LabelChain mgr.usedIds ((path.filter notLabel).map SessionEntry.id)
        ((path.filter notLabel).getLast?.map SessionEntry.id) labels ∧
      (path.filter notLabel = [] → labels = []) := by
  refine ⟨_,rfl,?_⟩
  rcases List.eq_nil_or_concat' (path.filter notLabel) with none_left | ⟨early,last,ends⟩
  · rw [none_left]
    have no_labels : mgr.labelsToWrite [] = [] := by
      simp [SessionManager.labelsToWrite]
    rw [List.map_nil, no_labels]
    exact ⟨.nil _ _ _,fun _ => rfl⟩
  · have known : ∀ u ∈ (path.filter notLabel).map SessionEntry.id, u ∈ mgr.usedIds ∨
        ∃ j < 0, u ∈ (ids j).snowflake :: (ids j).randomUUIDs := by
      intro u mem
      obtain ⟨e,e_mem,rfl⟩ := List.mem_map.mp mem
      rw [is_tree.usedIds_eq]
      exact .inl (List.mem_map_of_mem (branch.inside e (List.mem_of_mem_filter e_mem)))
    have last_mem : last ∈ path := by
      refine List.mem_of_mem_filter (p := notLabel) ?_
      rw [ends]
      simp
    have above : parentOf ((path.filter notLabel).map SessionEntry.id).getLast? =
        (path.filter notLabel).getLast?.map SessionEntry.id := by
      rw [ends, List.getLast?_map, List.getLast?_concat]
      exact keeps last.id (branch.is_path.named last last_mem)
    refine ⟨?_,fun none_left => by simp [none_left] at ends⟩
    rw [above]
    exact freshLabels_chain sources now _ 0 _ known _

theorem label_free_of_preserves {mgr new : SessionManager} {leafId : JsString}
    {leaf : SessionEntry} {path labels : List SessionEntry} (branch : IsBranch mgr.getEntries leaf path)
    (holds : new.Holds (path.filter notLabel ++ labels))
    (fresh : ∀ l ∈ labels, ∀ e ∈ path, l.id ≠ e.id) (preserves : Preserves mgr leafId path new) :
    LabelFree path := by
  have retained : ∀ e ∈ path, notLabel e = true → e ∈ new.getEntries := by
    intro e mem kept
    rw [holds.listed]
    exact List.mem_append_left _ (List.mem_filter.mpr ⟨mem,kept⟩)
  have on_path : ∀ q ∈ new.getEntries, ∀ e ∈ path, q.id = e.id → notLabel e = true := by
    intro q q_mem e mem same
    rw [holds.listed] at q_mem
    rcases List.mem_append.mp q_mem with old | added
    · have q_path := List.mem_of_mem_filter old
      rw [← List.inj_on_of_nodup_map branch.is_path.distinct q_path mem same]
      exact (List.mem_filter.mp old).2
    · exact absurd same (fresh q added e mem)
  constructor
  · intro e mem kept p p_mem link
    rcases preserves.parents e (retained e mem kept) with root | ⟨q,q_mem,above⟩
    · rw [root] at link
      cases link
    · refine on_path q q_mem p p_mem ?_
      rw [above] at link
      exact Option.some.inj link
  · intro e mem c body
    obtain ⟨q,q_mem,q_path,names⟩ :=
      preserves.kept e (retained e mem (compaction_notLabel body)) c body
    exact ⟨q,q_path,on_path q q_mem q q_path rfl,names⟩

theorem preserves_of_label_free {mgr new : SessionManager} (is_tree : IsTree mgr) {leaf : SessionEntry}
    (mem : leaf ∈ mgr.getEntries) {path labels : List SessionEntry}
    (found : mgr.getBranch (some leaf.id) = some path) (branch : IsBranch mgr.getEntries leaf path)
    (holds : new.Holds (path.filter notLabel ++ labels))
    (chain : LabelChain mgr.usedIds ((path.filter notLabel).map SessionEntry.id)
      ((path.filter notLabel).getLast?.map SessionEntry.id) labels)
    (hung : path.filter notLabel = [] → labels = []) (free : LabelFree path) :
    Preserves mgr leaf.id path new := by
  have used : ∀ e ∈ path, e.id ∈ mgr.usedIds := by
    intro e e_mem
    rw [is_tree.usedIds_eq]
    exact List.mem_map_of_mem (branch.inside e e_mem)
  have is_path : SessionPath (path.filter notLabel ++ labels) :=
    (branch.without_labels is_tree.tree free).append
      (fun e e_mem => used e (List.mem_of_mem_filter e_mem)) chain hung
  have dropped : (path.filter notLabel ++ labels).filter notLabel = path.filter notLabel := by
    have all : (path.filter notLabel).filter notLabel = path.filter notLabel := by simp
    have none : labels.filter notLabel = [] := by
      rw [List.filter_eq_nil_iff]
      intro l l_mem
      simp [chain.silent l l_mem]
    rw [List.filter_append, all, none, List.append_nil]
  have same_context : pathContext (path.filter notLabel ++ labels) = pathContext path := by
    rw [← pathContext_notLabel is_path.distinct, dropped, pathContext_notLabel branch.is_path.distinct]
    · intro entry entry_mem c body e e_mem names
      obtain ⟨p,p_mem,kept,p_names⟩ := free.kept entry entry_mem c body
      rw [List.inj_on_of_nodup_map branch.is_path.distinct e_mem p_mem (names.trans p_names.symm)]
      exact kept
    · intro entry entry_mem c body e e_mem names
      have entry_path : entry ∈ path := by
        refine List.mem_of_mem_filter (p := notLabel) ?_
        rw [← dropped]
        exact List.mem_filter.mpr ⟨entry_mem,compaction_notLabel body⟩
      obtain ⟨p,p_mem,-,p_names⟩ := free.kept entry entry_path c body
      rcases List.mem_append.mp e_mem with old | added
      · exact (List.mem_filter.mp old).2
      · exact absurd (names.trans p_names.symm ▸ used p p_mem) (chain.fresh e added).2.1
  constructor
  · refine ⟨_,_,is_tree.context_at mem found,holds.context is_path,?_⟩
    rw [same_context]
    exact ⟨rfl,rfl,rfl⟩
  · rw [holds.listed]
    intro e e_mem
    exact is_path.parent_inside e_mem
  · rw [holds.listed]
    intro e e_mem c body
    have e_path : e ∈ path := by
      refine List.mem_of_mem_filter (p := notLabel) ?_
      rw [← dropped]
      exact List.mem_filter.mpr ⟨e_mem,compaction_notLabel body⟩
    obtain ⟨p,p_mem,kept,names⟩ := free.kept e e_path c body
    exact ⟨p,List.mem_append_left _ (List.mem_filter.mpr ⟨p_mem,kept⟩),p_mem,names⟩

/- Both operations leave the entries of the branch. -/

theorem pruned_holds {mgr : SessionManager} {header : SessionHeader} (has_header : mgr.getHeader = some header)
    {leafId : JsString} (at_leaf : mgr.leafId = some leafId) (named : leafId ≠ [])
    {path : List SessionEntry} (filled : path ≠ []) (found : mgr.getBranch (some leafId) = some path)
    (ids : Nat → IdSource) (now : Int) :
    ∃ dropped pruned, mgr.pruneToActiveBranch ids now = some (dropped, pruned) ∧
      pruned.Holds (mgr.branchEntries ids now SessionManager.orNull path) := by
  have unset : ¬ (some leafId).all (fun id => id = []) = true := by
    simpa using named
  rw [SessionManager.pruneToActiveBranch, at_leaf, if_neg unset, has_header, found]
  simp only [Option.map_some, if_neg filled]
  have built := SessionManager.buildIndex_holds
    { mgr with
      fileEntries := .session header ::
        (mgr.branchEntries ids now SessionManager.orNull path).map .entry } header _ rfl
  exact ⟨_,_,rfl,built.listed,built.indexed,built.at_end⟩

theorem branched_holds {mgr : SessionManager} {leafId : JsString} {path : List SessionEntry}
    (filled : path ≠ []) (found : mgr.getBranch (some leafId) = some path) (ids : Nat → IdSource) (now : Int)
    (newSessionId newSessionFile : JsString) :
    ∃ file branched, mgr.createBranchedSession ids now newSessionId newSessionFile leafId =
        some (.ok (file, branched)) ∧
      branched.Holds (mgr.branchEntries ids now SessionManager.truthyOrNull path) := by
  rw [SessionManager.createBranchedSession, found, Option.map_some, if_neg filled]
  dsimp only
  split
  · exact ⟨_,_,rfl,SessionManager.buildIndex_holds _ _ _ rfl⟩
  · exact ⟨_,_,rfl,SessionManager.buildIndex_holds _ _ _ rfl⟩

theorem preserves_iff {mgr new : SessionManager} (is_tree : IsTree mgr) {leaf : SessionEntry}
    (mem : leaf ∈ mgr.getEntries) {path : List SessionEntry}
    (found : mgr.getBranch (some leaf.id) = some path) (branch : IsBranch mgr.getEntries leaf path)
    {ids : Nat → IdSource} (sources : FreshSources ids mgr.usedIds) {now : Int}
    {parentOf : Option JsString → Option JsString} (keeps : ∀ id, id ≠ [] → parentOf (some id) = some id)
    (holds : new.Holds (mgr.branchEntries ids now parentOf path)) :
    Preserves mgr leaf.id path new ↔ LabelFree path := by
  obtain ⟨labels,shape,chain,hung⟩ := branchEntries_split is_tree sources now keeps branch
  rw [shape] at holds
  have fresh : ∀ l ∈ labels, ∀ e ∈ path, l.id ≠ e.id := by
    intro l l_mem e e_mem same
    refine (chain.fresh l l_mem).2.1 ?_
    rw [same, is_tree.usedIds_eq]
    exact List.mem_map_of_mem (branch.inside e e_mem)
  exact ⟨label_free_of_preserves branch holds fresh,
    preserves_of_label_free is_tree mem found branch holds chain hung⟩

theorem branch_operations_preserve_iff {mgr : SessionManager} (reachable : Reachable mgr)
    {leaf : SessionEntry} (mem : leaf ∈ mgr.getEntries) {ids : Nat → IdSource}
    (sources : FreshSources ids mgr.usedIds) (now : Int) (newSessionId newSessionFile : JsString) :
    ∃ path moved dropped pruned file branched,
      mgr.getBranch (some leaf.id) = some path ∧ mgr.branch leaf.id = .ok moved ∧
      moved.pruneToActiveBranch ids now = some (dropped, pruned) ∧
      mgr.createBranchedSession ids now newSessionId newSessionFile leaf.id = some (.ok (file, branched)) ∧
      (Preserves mgr leaf.id path pruned ↔ LabelFree path) ∧
      (Preserves mgr leaf.id path branched ↔ LabelFree path) := by
  have is_tree := reachable_isTree reachable
  obtain ⟨path,found,branch⟩ := is_tree.getBranch mem
  obtain ⟨header,has_header⟩ := is_tree.header
  have named := is_tree.tree.named leaf mem
  have known : has mgr.byId leaf.id = true := (is_tree.has_iff leaf.id).mpr (List.mem_map_of_mem mem)
  have filled : path ≠ [] := by
    intro empty
    have last := branch.last
    rw [empty] at last
    cases last
  obtain ⟨dropped,pruned,made_pruned,holds_pruned⟩ :=
    @pruned_holds { mgr with leafId := some leaf.id } header has_header leaf.id rfl named path filled found
      ids now
  obtain ⟨file,branched,made_branched,holds_branched⟩ :=
    branched_holds filled found ids now newSessionId newSessionFile
  have moved : mgr.branch leaf.id = .ok { mgr with leafId := some leaf.id } := by
    rw [SessionManager.branch, if_pos known]
  refine ⟨path,_,dropped,pruned,file,branched,found,moved,made_pruned,made_branched,?_,?_⟩
  · exact preserves_iff is_tree mem found branch sources (fun _ _ => rfl) holds_pruned
  · refine preserves_iff is_tree mem found branch sources ?_ holds_branched
    intro id filled_id
    simp [SessionManager.truthyOrNull, filled_id]

/- Two short sessions -/

def drawing (id : JsString) : IdSource := ⟨[id],id⟩

def sayUser (id text : JsString) : SessionOp :=
  .appendMessage (drawing id) 0 (.user ⟨.plain text,0⟩)

def labelFirst (id : JsString) : SessionOp :=
  .appendLabelChange (drawing id) 0 (js "a") (some (js "mark"))

def emptySession : SessionManager := .newSession (js "/") (js "s") false none none 0

def runSession (ops : List SessionOp) : SessionManager := ops.foldl SessionOp.apply emptySession

/- Snowflakes of growing length. -/
def longSnowflakes (k : Nat) : IdSource := ⟨[],List.replicate (k + 2) 120⟩

theorem longSnowflakes_fresh {old : List JsString} (short : ∀ id ∈ old, id.length < 2) :
    FreshSources longSnowflakes old where
  drawn := by
    intro k id mem
    obtain rfl : id = List.replicate (k + 2) 120 := by simpa [longSnowflakes] using mem
    refine ⟨by simp,fun inside => ?_⟩
    have bound := short _ inside
    rw [List.length_replicate] at bound
    omega
  snowflake := by
    intro j k earlier mem
    have lengths : (List.replicate (k + 2) (120 : CodeUnit)).length = (List.replicate (j + 2) (120 : CodeUnit)).length := by
      exact congrArg List.length (List.mem_singleton.mp mem)
    simp only [List.length_replicate] at lengths
    omega

instance (source : IdSource) (used : List JsString) : Decidable (source.Fresh used) :=
  decidable_of_iff ((∀ id ∈ source.snowflake :: source.randomUUIDs, id ≠ []) ∧ source.snowflake ∉ used)
    ⟨fun both => ⟨both.1,both.2⟩,fun fresh => ⟨fresh.named,fresh.unused⟩⟩

/- Every operation draws fresh ids where it is run. -/
def AllFresh (mgr : SessionManager) : List SessionOp → Prop
  | [] => True
  | op :: rest => (∀ source ∈ op.source?, source.Fresh mgr.usedIds) ∧ AllFresh (op.apply mgr) rest

theorem reachable_run {mgr : SessionManager} (reachable : Reachable mgr) (ops : List SessionOp)
    (fresh : AllFresh mgr ops) : Reachable (ops.foldl SessionOp.apply mgr) := by
  induction ops generalizing mgr with
  | nil => exact reachable
  | cons op rest ih => exact ih (reachable.step op fresh.1) fresh.2

/-- The parents of an entry stay where they are when entries are added. -/
theorem parent_kept {entries more : List SessionEntry} {e : SessionEntry} (tree : EntryTree entries) (tree' : EntryTree (entries ++ more))
    (mem : e ∈ entries) : parentEntry (index (entries ++ more)) e = parentEntry (index entries) e := by
  cases above : parentEntry (index entries) e with
  | none => rw [parentEntry, tree.rootless mem above, lookupId, Option.bind_none]
  | some parent =>
    obtain ⟨there,named⟩ := lookup_source above
    rw [parentEntry, named]
    exact lookup_index tree'.distinct (List.mem_append_left _ there) (tree.named parent there)

theorem branch_kept {mgr later : SessionManager} {leaf : SessionEntry} (is_tree : IsTree mgr) (is_tree' : IsTree later)
    (kept : mgr.getEntries <+: later.getEntries) (mem : leaf ∈ mgr.getEntries) : ∃ path, mgr.getBranch (some leaf.id) = some path ∧
      IsBranch mgr.getEntries leaf path ∧ later.getBranch (some leaf.id) = some path := by
  obtain ⟨path,found,branch⟩ := is_tree.getBranch mem
  obtain ⟨more,all⟩ := kept
  have tree' := is_tree'.tree
  rw [← all] at tree'
  have same : ∀ e ∈ path, parentEntry (index later.getEntries) e = parentEntry (index mgr.getEntries) e := fun e inside =>
    all ▸ parent_kept is_tree.tree tree' (branch.inside e inside)
  have trail : Trail (parentEntry (index later.getEntries)) path :=
    ⟨branch.trail.linked.imp_of_mem_imp fun _ child _ inside link => (same child inside).trans link,
      fun e first => (same e (List.mem_of_mem_head? first)).trans (branch.trail.root e first)⟩
  have short : path.length ≤ (index later.getEntries).length + 1 := by
    have within := (List.subperm_of_subset branch.is_path.distinct.of_map branch.inside).length_le
    have grown := congrArg List.length all
    rw [List.length_append] at grown
    simp only [index, List.length_map]
    omega
  have there : leaf ∈ later.getEntries := all ▸ List.mem_append_left _ mem
  refine ⟨path,found,branch,?_⟩
  rw [SessionManager.getBranch, Option.some_or, is_tree'.indexed,
    lookup_index is_tree'.tree.distinct there (is_tree'.tree.named leaf there), ← branch.last]
  exact climb_trail trail short

theorem entries_grow (mgr : SessionManager) (op : SessionOp) : mgr.getEntries <+: (op.apply mgr).getEntries := by
  rcases op.apply_cases mgr with same | ⟨leafId,_,moved⟩ | ⟨source,now,body,leafId,labels,_,_,appended⟩
  · rw [same]
  · rw [moved]
    exact List.prefix_refl _
  · rw [appended]
    simp [SessionManager.getEntries, SessionManager.appendBody, SessionManager.appendEntry]

/-- A session is only ever added to: no later operation takes an entry away, and the branch of an entry, which runs from
    a root down to it, is the same for good. -/
theorem history_is_kept {mgr : SessionManager} (reachable : Reachable mgr) (ops : List SessionOp) (fresh : AllFresh mgr ops) :
    mgr.getEntries <+: (ops.foldl SessionOp.apply mgr).getEntries ∧
      ∀ leaf ∈ mgr.getEntries, ∃ path, mgr.getBranch (some leaf.id) = some path ∧ IsBranch mgr.getEntries leaf path ∧
        (ops.foldl SessionOp.apply mgr).getBranch (some leaf.id) = some path := by
  have grown : ∀ (ops : List SessionOp) (mgr : SessionManager), mgr.getEntries <+: (ops.foldl SessionOp.apply mgr).getEntries := by
    intro ops
    induction ops with
    | nil => exact fun mgr => List.prefix_refl _
    | cons op rest ih => exact fun mgr => (entries_grow mgr op).trans (ih (op.apply mgr))
  exact ⟨grown ops mgr,fun leaf mem => branch_kept (reachable_isTree reachable) (reachable_isTree (reachable_run reachable ops fresh))
    (grown ops mgr) mem⟩

theorem runSession_reachable (ops : List SessionOp) (fresh : AllFresh emptySession ops) :
    Reachable (runSession ops) :=
  reachable_run (.newSession _ _ _ _ _ _) ops fresh

def labelAtEnd : List SessionOp :=
  [sayUser (js "a") (js "x"), sayUser (js "b") (js "y"), labelFirst (js "c")]

theorem history_is_kept_labelled :
    let mgr := runSession [sayUser (js "a") (js "x")]
    mgr.getEntries <+: ([sayUser (js "b") (js "y"), labelFirst (js "c")].foldl SessionOp.apply mgr).getEntries ∧
      ∀ leaf ∈ mgr.getEntries, ∃ path, mgr.getBranch (some leaf.id) = some path ∧ IsBranch mgr.getEntries leaf path ∧
        ([sayUser (js "b") (js "y"), labelFirst (js "c")].foldl SessionOp.apply mgr).getBranch (some leaf.id) = some path :=
  history_is_kept (runSession_reachable [sayUser (js "a") (js "x")] ⟨by decide,trivial⟩) _ ⟨by decide +kernel,by decide +kernel,trivial⟩

def labelEntry (id parentId : JsString) : SessionEntry :=
  ⟨id,some parentId,0,.label (js "a") (some (js "mark"))⟩

theorem branch_operations_preserve_labelAtEnd :
    ∃ path moved dropped pruned file branched,
      (runSession labelAtEnd).getBranch (some (js "c")) = some path ∧
      (runSession labelAtEnd).branch (js "c") = .ok moved ∧
      moved.pruneToActiveBranch longSnowflakes 0 = some (dropped, pruned) ∧
      (runSession labelAtEnd).createBranchedSession longSnowflakes 0 (js "t") (js "f") (js "c") =
        some (.ok (file, branched)) ∧
      Preserves (runSession labelAtEnd) (js "c") path pruned ∧
      Preserves (runSession labelAtEnd) (js "c") path branched := by
  have reachable : Reachable (runSession labelAtEnd) :=
    runSession_reachable labelAtEnd ⟨by decide,by decide +kernel,by decide +kernel,trivial⟩
  have mem : labelEntry (js "c") (js "b") ∈ (runSession labelAtEnd).getEntries := by decide +kernel
  have sources : FreshSources longSnowflakes (runSession labelAtEnd).usedIds :=
    longSnowflakes_fresh (by decide +kernel)
  obtain ⟨path,moved,dropped,pruned,file,branched,found,at_leaf,made,replaced,pruned_iff,
    branched_iff⟩ := branch_operations_preserve_iff reachable mem sources 0 (js "t") (js "f")
  have free : LabelFree path := by
    have walked : (runSession labelAtEnd).getBranch (some (js "c")) =
        some [(runSession labelAtEnd).getEntries.get ⟨0,by decide +kernel⟩,
          (runSession labelAtEnd).getEntries.get ⟨1,by decide +kernel⟩,
          labelEntry (js "c") (js "b")] := by decide +kernel
    obtain rfl := Option.some.inj (walked.symm.trans found)
    refine ⟨by decide +kernel,?_⟩
    intro e e_mem c body
    have plain : ∀ x ∈ (runSession labelAtEnd).getEntries, x.compaction? = none := by decide +kernel
    have entries : ∀ x ∈ [(runSession labelAtEnd).getEntries.get ⟨0,by decide +kernel⟩,
        (runSession labelAtEnd).getEntries.get ⟨1,by decide +kernel⟩,
        labelEntry (js "c") (js "b")], x ∈ (runSession labelAtEnd).getEntries := by decide +kernel
    rw [plain e (entries e e_mem)] at body
    cases body
  exact ⟨path,moved,dropped,pruned,file,branched,found,at_leaf,made,replaced,
    pruned_iff.mpr free,branched_iff.mpr free⟩

/- The second message hangs below the label. -/
def labelInPath : List SessionOp :=
  [sayUser (js "a") (js "x"), labelFirst (js "b"), sayUser (js "c") (js "y")]

theorem label_in_path_loses_parent : Reachable (runSession labelInPath) ∧
    ∃ path pruned branched, (runSession labelInPath).getBranch (some (js "c")) = some path ∧
      ((runSession labelInPath).pruneToActiveBranch longSnowflakes 0).map Prod.snd = some pruned ∧
      (runSession labelInPath).createBranchedSession longSnowflakes 0 (js "t") (js "f") (js "c") =
        some (.ok (none, branched)) ∧
      ¬ Preserves (runSession labelInPath) (js "c") path pruned ∧
      ¬ Preserves (runSession labelInPath) (js "c") path branched := by
  refine ⟨runSession_reachable labelInPath ⟨by decide,by decide +kernel,by decide +kernel,trivial⟩,
    _,_,_,rfl,rfl,rfl,?_,?_⟩
  · intro preserves
    have above := preserves.parents (userEntry (js "c") (some (js "b")) (js "y")) (by decide +kernel)
    revert above
    decide +kernel
  · intro preserves
    have above := preserves.parents (userEntry (js "c") (some (js "b")) (js "y")) (by decide +kernel)
    revert above
    decide +kernel

end Session
