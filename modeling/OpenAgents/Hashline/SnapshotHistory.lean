import OpenAgents.Hashline.Snapshots

/- Runs of the snapshot store, watched together with the texts recorded on each
   path since the store last dropped it. -/
namespace Hashline
open JsText LruMap RecentFirst InMemorySnapshotStore

inductive StoreOp where
  | record (path text : JsString) (now : Nat)
  | invalidate (path : JsString)
  | clear
  | head (path : JsString)
  | byHash (path hash : JsString)
  deriving DecidableEq, Repr

structure Watched (maxPaths : Nat) where
  store : InMemorySnapshotStore maxPaths
  recorded : JsString → List JsString

section Runs
variable (xxHash32 : JsString → Nat) {maxPaths : Nat}

def StoreOp.apply (st : InMemorySnapshotStore maxPaths) : StoreOp → InMemorySnapshotStore maxPaths
  | .record path text now => (st.record xxHash32 path text now).2
  | .invalidate path => st.invalidate path
  | .clear => st.clear
  | .head path => (st.head path).2
  | .byHash path hash => (st.byHash path hash).2

def StoreOp.note (path : JsString) (texts : List JsString) : StoreOp → List JsString
  | .record recordedPath text _ => if recordedPath = path then promote text texts else texts
  | _ => texts

def Watched.step (w : Watched maxPaths) (op : StoreOp) : Watched maxPaths :=
  let store := op.apply xxHash32 w.store
  ⟨store,fun path =>
    if (find store.versions path).isNone then [] else op.note path (w.recorded path)⟩

def Watched.start (maxPaths maxVersionsPerPath : Nat) : Watched maxPaths :=
  ⟨InMemorySnapshotStore.new maxPaths maxVersionsPerPath,fun _ => []⟩

def watch (maxPaths maxVersionsPerPath : Nat) (ops : List StoreOp) : Watched maxPaths :=
  ops.foldl (Watched.step xxHash32) (Watched.start maxPaths maxVersionsPerPath)

/-- What a caller of `record` relies on afterwards. -/
structure AfterRecord (w : Watched maxPaths) (path text tag : JsString) : Prop where
  head : (w.store.head path).1.map Snapshot.text = some text
  byHash : (w.store.byHash path tag).1.map Snapshot.text = some text
  versions : ∀ p, ((w.store.history p).map Snapshot.hash).Nodup ∧
    (w.store.history p).length ≤ w.store.maxVersionsPerPath
  recent : ∀ p, ∀ t ∈ (w.recorded p).take w.store.maxVersionsPerPath,
    (w.store.byHash p (computeFileHash xxHash32 t)).1.map Snapshot.text = some t

/- No version of the path differs from the text in trailing blanks alone. -/
def CleanRecord (st : InMemorySnapshotStore maxPaths) (path text : JsString) : Prop :=
  ∀ version ∈ st.history path,
    normalizeFileHashText version.text = normalizeFileHashText text → version.text = text

end Runs

/- One history -/

structure WellTagged (tag : JsString → JsString) (limit : Nat) (history : List Snapshot) : Prop where
  distinct : (history.map Snapshot.hash).Nodup
  bounded : history.length ≤ limit
  tagged : ∀ version ∈ history, version.hash = tag version.text

def Mirrors (limit : Nat) (history : List Snapshot) (recorded : List JsString) : Prop :=
  history.map Snapshot.text = recorded.take limit

theorem empty_wellTagged (tag : JsString → JsString) (limit : Nat) : WellTagged tag limit [] :=
  ⟨List.nodup_nil,Nat.zero_le limit,by simp⟩

theorem empty_mirrors (limit : Nat) : Mirrors limit [] [] := List.take_nil.symm

theorem recordVersion_known {history : List Snapshot} (limit : Nat) (snapshot : Snapshot)
    {existing : Snapshot} (found : history.find? (·.hash == snapshot.hash) = some existing) :
    existing.hash = snapshot.hash ∧ ∃ early late, history = early ++ existing :: late ∧
      recordVersion history limit snapshot =
        { existing with recordedAt := snapshot.recordedAt } :: (early ++ late) := by
  obtain ⟨same,early,late,split,before⟩ := List.find?_eq_some_iff_append.mp found
  have hash : existing.hash = snapshot.hash := by simpa using same
  refine ⟨hash,early,late,split,?_⟩
  have erased : history.eraseP (fun version => version.hash == snapshot.hash) = early ++ late := by
    rw [split, List.eraseP_append_right _ (by simpa using before),
      List.eraseP_cons_of_pos (by simpa using hash)]
  simp only [recordVersion, found, erased]

theorem recordVersion_new {history : List Snapshot} (limit : Nat) (snapshot : Snapshot)
    (absent : history.find? (·.hash == snapshot.hash) = none) :
    snapshot.hash ∉ history.map Snapshot.hash ∧
      recordVersion history limit snapshot = (snapshot :: history).take limit := by
  refine ⟨?_,by simp only [recordVersion, absent]⟩
  intro mem
  obtain ⟨version,inside,same⟩ := List.mem_map.mp mem
  have other := List.find?_eq_none.mp absent version inside
  simp [same] at other

variable {limit : Nat} {recorded : List JsString}

theorem recordVersion_wellTagged {tag : JsString → JsString} {history : List Snapshot} (path text : JsString) (now : Nat)
    (tagged : WellTagged tag limit history) :
    WellTagged tag limit (recordVersion history limit ⟨path,text,tag text,now⟩) := by
  obtain ⟨distinct,bounded,own⟩ := tagged
  cases found : history.find? (·.hash == tag text) with
  | some existing =>
    obtain ⟨_,early,late,rfl,after⟩ := recordVersion_known limit ⟨path,text,tag text,now⟩ found
    rw [after]
    refine ⟨?_,by simpa [Nat.add_assoc] using bounded,?_⟩
    · have moved : (early ++ existing :: late).Perm (existing :: (early ++ late)) := List.perm_middle
      simpa using (moved.map Snapshot.hash).nodup_iff.mp distinct
    · intro version mem
      rcases List.mem_cons.mp mem with rfl | other
      · exact own existing (by simp)
      · rcases List.mem_append.mp other with inside | inside
        · exact own version (by simp [inside])
        · exact own version (by simp [inside])
  | none =>
    obtain ⟨fresh,after⟩ := recordVersion_new limit ⟨path,text,tag text,now⟩ found
    rw [after]
    refine ⟨?_,by simp [List.length_take, Nat.min_le_left],?_⟩
    · rw [List.map_take]
      exact (List.take_sublist limit _).nodup (List.nodup_cons.mpr ⟨fresh,distinct⟩)
    · intro version mem
      rcases List.mem_cons.mp (List.mem_of_mem_take mem) with rfl | other
      · rfl
      · exact own version other

theorem find_by_tag {tag : JsString → JsString} {history : List Snapshot} (tagged : WellTagged tag limit history)
    (mirrors : Mirrors limit history recorded) {text : JsString} (recent : text ∈ recorded.take limit) :
    (history.find? (·.hash == tag text)).map Snapshot.text = some text := by
  rw [← mirrors] at recent
  obtain ⟨version,mem,rfl⟩ := List.mem_map.mp recent
  have own := tagged.tagged version mem
  cases found : history.find? (·.hash == tag version.text) with
  | none =>
    have other := List.find?_eq_none.mp found version mem
    simp [own] at other
  | some first =>
    have same : first.hash = version.hash := by
      have hit := List.find?_some found
      simpa [own] using hit
    have unique := List.inj_on_of_nodup_map tagged.distinct (List.mem_of_find?_eq_some found) mem same
    rw [unique]
    rfl

theorem recordVersion_mirrors {tag : JsString → JsString} {history : List Snapshot} {path text : JsString} {now : Nat}
    (tagged : WellTagged tag limit history) (mirrors : Mirrors limit history recorded) (nodup : recorded.Nodup)
    (clean : ∀ version ∈ history, version.hash = tag text → version.text = text) :
    Mirrors limit (recordVersion history limit ⟨path,text,tag text,now⟩) (promote text recorded) := by
  rw [Mirrors] at mirrors ⊢
  cases found : history.find? (·.hash == tag text) with
  | some existing =>
    obtain ⟨hash,early,late,rfl,after⟩ :=
      recordVersion_known limit ⟨path,text,tag text,now⟩ found
    have here : existing.text = text := clean existing (by simp) hash
    rw [List.map_append, List.map_cons, here] at mirrors
    have known : text ∈ recorded.take limit := by simp [← mirrors]
    have unique : (early.map Snapshot.text ++ text :: late.map Snapshot.text).Nodup := by
      rw [mirrors]
      exact (List.take_sublist limit recorded).nodup nodup
    obtain ⟨gone,_⟩ := List.nodup_cons.mp (List.nodup_middle.mp unique)
    rw [List.mem_append, not_or] at gone
    rw [after, take_promote_known nodup known, ← mirrors, promote, others_append, others_cons_self,
      others_absent gone.1, others_absent gone.2]
    simp [here]
  | none =>
    obtain ⟨fresh,after⟩ := recordVersion_new limit ⟨path,text,tag text,now⟩ found
    have unseen : text ∉ recorded.take limit := by
      rw [← mirrors]
      intro mem
      obtain ⟨version,inside,rfl⟩ := List.mem_map.mp mem
      exact fresh (List.mem_map.mpr ⟨version,inside,tagged.tagged version inside⟩)
    rw [after, List.map_take, List.map_cons, mirrors, take_promote_new unseen]

/- The store -/

section Invariants
variable {xxHash32 : JsString → Nat} {maxPaths : Nat}

theorem history_of_found {st : InMemorySnapshotStore maxPaths} {path : JsString}
    {versions : List Snapshot} (found : find st.versions path = some versions) :
    st.history path = versions := by rw [history, found, Option.getD_some]

/-- What one step leaves of a path: it is recorded on, kept as it was, or dropped. -/
theorem apply_cases (xxHash32 : JsString → Nat) (room : 0 < maxPaths) (st : InMemorySnapshotStore maxPaths) (op : StoreOp)
    (path : JsString) :
    (∃ text now, op = .record path text now ∧
      find (op.apply xxHash32 st).versions path = some (recordVersion (st.history path)
        st.maxVersionsPerPath ⟨path,text,computeFileHash xxHash32 text,now⟩)) ∨
    ((∀ texts, op.note path texts = texts) ∧
      find (op.apply xxHash32 st).versions path = find st.versions path) ∨
    find (op.apply xxHash32 st).versions path = none := by
  cases op with
  | record recordedPath text now =>
    by_cases here : recordedPath = path
    · subst here
      exact .inl ⟨text,now,rfl,find_set_self _ _ _ room⟩
    · have kept := find_set_other (touch st.versions recordedPath)
        (recordVersion (st.history recordedPath) st.maxVersionsPerPath
          ⟨recordedPath,text,computeFileHash xxHash32 text,now⟩) (fun same => here same.symm)
      rw [find_touch] at kept
      rcases kept with same | gone
      · exact .inr (.inl ⟨fun texts => if_neg here,same⟩)
      · exact .inr (.inr gone)
  | invalidate dropped =>
    by_cases here : path = dropped
    · subst here
      exact .inr (.inr (find_delete_self st.versions path))
    · exact .inr (.inl ⟨fun _ => rfl,find_delete_other st.versions here⟩)
  | clear => exact .inr (.inr rfl)
  | head touched => exact .inr (.inl ⟨fun _ => rfl,find_touch st.versions path touched⟩)
  | byHash touched hash => exact .inr (.inl ⟨fun _ => rfl,find_touch st.versions path touched⟩)

theorem apply_limit (st : InMemorySnapshotStore maxPaths) (op : StoreOp) :
    (op.apply xxHash32 st).maxVersionsPerPath = st.maxVersionsPerPath := by cases op <;> rfl

def AllTagged (xxHash32 : JsString → Nat) (st : InMemorySnapshotStore maxPaths) : Prop :=
  ∀ path, WellTagged (computeFileHash xxHash32) st.maxVersionsPerPath (st.history path)

theorem apply_tagged (room : 0 < maxPaths) {st : InMemorySnapshotStore maxPaths} (op : StoreOp)
    (tagged : AllTagged xxHash32 st) : AllTagged xxHash32 (op.apply xxHash32 st) := by
  intro path
  rw [apply_limit]
  rcases apply_cases xxHash32 room st op path with ⟨text,now,_,found⟩ | ⟨_,same⟩ | gone
  · rw [history_of_found found]
    exact recordVersion_wellTagged path text now (tagged path)
  · rw [history, same]
    exact tagged path
  · rw [history, gone]
    exact empty_wellTagged _ _

def AllMirrored (w : Watched maxPaths) : Prop :=
  ∀ path, (w.recorded path).Nodup ∧
    Mirrors w.store.maxVersionsPerPath (w.store.history path) (w.recorded path)

theorem step_mirrored (room : 0 < maxPaths) {w : Watched maxPaths} (op : StoreOp)
    (tagged : AllTagged xxHash32 w.store) (mirrored : AllMirrored w)
    (clean : ∀ path text now, op = .record path text now → ∀ version ∈ w.store.history path,
      version.hash = computeFileHash xxHash32 text → version.text = text) :
    AllMirrored (w.step xxHash32 op) := by
  intro path
  obtain ⟨nodup,mirrors⟩ := mirrored path
  simp only [Watched.step, apply_limit]
  rcases apply_cases xxHash32 room w.store op path with
    ⟨text,now,rfl,found⟩ | ⟨unnoted,same⟩ | gone
  · rw [history_of_found found, found]
    simp only [Option.isNone_some, Bool.false_eq_true, if_false, StoreOp.note, if_true]
    exact ⟨promote_nodup text nodup,
      recordVersion_mirrors (tagged path) mirrors nodup (clean path text now rfl)⟩
  · simp only [history, same, unnoted]
    cases found : find w.store.versions path with
    | none => exact ⟨List.nodup_nil,empty_mirrors _⟩
    | some versions =>
      rw [history_of_found found] at mirrors
      exact ⟨nodup,mirrors⟩
  · simp only [history, gone, Option.isNone_none, if_true, Option.getD_none]
    exact ⟨List.nodup_nil,empty_mirrors _⟩

theorem watch_snoc (xxHash32 : JsString → Nat) (maxPaths limit : Nat) (ops : List StoreOp)
    (op : StoreOp) :
    watch xxHash32 maxPaths limit (ops ++ [op]) = (watch xxHash32 maxPaths limit ops).step xxHash32 op := by
  simp [watch]

theorem watch_limit (xxHash32 : JsString → Nat) (maxPaths limit : Nat) (ops : List StoreOp) :
    (watch xxHash32 maxPaths limit ops).store.maxVersionsPerPath = limit := by
  induction ops using List.reverseRecOn with
  | nil => rfl
  | append_singleton ops op ih =>
    rw [watch_snoc]
    exact (apply_limit _ op).trans ih

theorem watch_tagged (xxHash32 : JsString → Nat) {maxPaths : Nat} (limit : Nat)
    (room : 0 < maxPaths) (ops : List StoreOp) :
    AllTagged xxHash32 (watch xxHash32 maxPaths limit ops).store := by
  induction ops using List.reverseRecOn with
  | nil => exact fun path => empty_wellTagged _ _
  | append_singleton ops op ih =>
    rw [watch_snoc]
    exact apply_tagged room op ih

def recordedText? : StoreOp → Option JsString
  | .record _ text _ => some text
  | _ => none

def recordedTexts (ops : List StoreOp) : List JsString := ops.filterMap recordedText?

theorem watch_recorded (xxHash32 : JsString → Nat) (maxPaths limit : Nat) (ops : List StoreOp)
    (path : JsString) :
    ∀ text ∈ (watch xxHash32 maxPaths limit ops).recorded path, text ∈ recordedTexts ops := by
  induction ops using List.reverseRecOn with
  | nil => intro text mem; cases mem
  | append_singleton ops op ih =>
    intro text mem
    rw [watch_snoc] at mem
    simp only [Watched.step] at mem
    rw [recordedTexts, List.filterMap_append, List.mem_append]
    split at mem
    · cases mem
    · cases op with
      | record recordedPath latest now =>
        simp only [StoreOp.note] at mem
        split at mem
        · rcases mem_promote.mp mem with rfl | earlier
          · exact .inr (by simp [recordedText?])
          · exact .inl (ih text earlier)
        · exact .inl (ih text mem)
      | _ => exact .inl (ih text mem)

/- `ops` records `text` on `path` right after `before`. -/
def RecordsIn (ops before : List StoreOp) (path text : JsString) (now : Nat) : Prop :=
  before ++ [.record path text now] <+: ops

theorem version_recorded {xxHash32 : JsString → Nat} {maxPaths limit : Nat} {before : List StoreOp}
    (mirrored : AllMirrored (watch xxHash32 maxPaths limit before)) {path : JsString}
    {version : Snapshot} (mem : version ∈ (watch xxHash32 maxPaths limit before).store.history path) :
    version.text ∈ recordedTexts before := by
  apply watch_recorded xxHash32 maxPaths limit before path
  have inside : version.text ∈
      ((watch xxHash32 maxPaths limit before).store.history path).map Snapshot.text :=
    List.mem_map_of_mem mem
  rw [(mirrored path).2] at inside
  exact List.mem_of_mem_take inside

theorem watch_mirrored {xxHash32 : JsString → Nat} {maxPaths limit : Nat} (room : 0 < maxPaths)
    {ops : List StoreOp}
    (injective : ∀ s ∈ recordedTexts ops, ∀ t ∈ recordedTexts ops,
      computeFileHash xxHash32 s = computeFileHash xxHash32 t →
        normalizeFileHashText s = normalizeFileHashText t)
    (clean : ∀ before path text now, RecordsIn ops before path text now →
      CleanRecord (watch xxHash32 maxPaths limit before).store path text)
    (before : List StoreOp) (reached : before <+: ops) :
    AllMirrored (watch xxHash32 maxPaths limit before) := by
  induction before using List.reverseRecOn with
  | nil => exact fun path => ⟨List.nodup_nil,empty_mirrors limit⟩
  | append_singleton before op ih =>
    have mirrored := ih ((List.prefix_append before [op]).trans reached)
    have tagged := watch_tagged xxHash32 limit room before
    rw [watch_snoc]
    refine step_mirrored room op tagged mirrored ?_
    rintro path text now rfl version mem same
    have early := version_recorded mirrored mem
    have inRun : ∀ t ∈ recordedTexts (before ++ [StoreOp.record path text now]),
        t ∈ recordedTexts ops := fun t here => (reached.filterMap recordedText?).subset here
    have joined : recordedTexts (before ++ [StoreOp.record path text now]) =
        recordedTexts before ++ [text] := by simp [recordedTexts, recordedText?]
    rw [joined] at inRun
    apply clean before path text now reached version mem
    apply injective _ (inRun _ (by simp [early])) _ (inRun _ (by simp))
    rw [← (tagged path).tagged version mem, same]

theorem afterRecord_of_mirrored {w : Watched maxPaths} {path text : JsString} {rest : List JsString}
    (positive : 0 < w.store.maxVersionsPerPath) (tagged : AllTagged xxHash32 w.store)
    (mirrored : AllMirrored w) (latest : w.recorded path = text :: rest) :
    AfterRecord xxHash32 w path text (computeFileHash xxHash32 text) := by
  have recent : ∀ p, ∀ t ∈ (w.recorded p).take w.store.maxVersionsPerPath,
      (w.store.byHash p (computeFileHash xxHash32 t)).1.map Snapshot.text = some t :=
    fun p t mem => find_by_tag (tagged p) (mirrored p).2 mem
  obtain ⟨n,size⟩ : ∃ n, w.store.maxVersionsPerPath = n + 1 :=
    ⟨w.store.maxVersionsPerPath - 1,by omega⟩
  have window := (mirrored path).2
  rw [Mirrors, latest, size, List.take_succ_cons] at window
  constructor
  · rw [InMemorySnapshotStore.head, ← List.head?_map, window]
    rfl
  · apply recent path text
    rw [latest, size, List.take_succ_cons]
    exact List.mem_cons_self
  · exact fun p => ⟨(tagged p).distinct,(tagged p).bounded⟩
  · exact recent

/-- A version with the same normalized text takes the place of the recorded text. -/
theorem head_keeps_old_text (room : 0 < maxPaths) {st : InMemorySnapshotStore maxPaths}
    {path text : JsString} (now : Nat) (tagged : AllTagged xxHash32 st) {version : Snapshot}
    (mem : version ∈ st.history path)
    (same : normalizeFileHashText version.text = normalizeFileHashText text) :
    (((st.record xxHash32 path text now).2.head path).1.map Snapshot.text) = some version.text := by
  have tag : version.hash = computeFileHash xxHash32 text := by
    rw [(tagged path).tagged version mem, computeFileHash, same]
    rfl
  obtain ⟨existing,found⟩ : ∃ existing,
      (st.history path).find? (·.hash == computeFileHash xxHash32 text) = some existing := by
    rw [← Option.isSome_iff_exists, List.find?_isSome]
    exact ⟨version,mem,by simp [tag]⟩
  obtain ⟨hash,early,late,_,after⟩ := recordVersion_known st.maxVersionsPerPath
    ⟨path,text,computeFileHash xxHash32 text,now⟩ found
  have unique : existing = version := List.inj_on_of_nodup_map (tagged path).distinct
    (List.mem_of_find?_eq_some found) mem (hash.trans tag.symm)
  have stored : (st.record xxHash32 path text now).2.history path =
      { existing with recordedAt := now } :: (early ++ late) :=
    (history_of_found (find_set_self _ _ _ room)).trans after
  rw [InMemorySnapshotStore.head, stored, unique]
  rfl

/-- Every record of a run is followed by what its caller relies on exactly when at least one
    version is kept and no recorded text meets a version that differs in trailing blanks alone. -/
theorem records_resolve_iff {xxHash32 : JsString → Nat} {maxPaths limit : Nat} (room : 0 < maxPaths)
    {ops : List StoreOp}
    (injective : ∀ s ∈ recordedTexts ops, ∀ t ∈ recordedTexts ops,
      computeFileHash xxHash32 s = computeFileHash xxHash32 t →
        normalizeFileHashText s = normalizeFileHashText t) :
    (∀ before path text now, RecordsIn ops before path text now →
      AfterRecord xxHash32 (watch xxHash32 maxPaths limit (before ++ [.record path text now])) path text
        ((watch xxHash32 maxPaths limit before).store.record xxHash32 path text now).1) ↔
    ∀ before path text now, RecordsIn ops before path text now →
      0 < limit ∧ CleanRecord (watch xxHash32 maxPaths limit before).store path text := by
  constructor
  · intro after before path text now reached
    have resolved := after before path text now reached
    have limited := watch_limit xxHash32 maxPaths limit (before ++ [.record path text now])
    constructor
    · have bounded := (resolved.versions path).2
      have head := resolved.head
      rw [limited] at bounded
      rw [InMemorySnapshotStore.head, ← List.head?_map] at head
      by_contra none_kept
      have empty : (watch xxHash32 maxPaths limit
          (before ++ [.record path text now])).store.history path = [] := by
        apply List.eq_nil_of_length_eq_zero
        omega
      simp [empty] at head
    · intro version mem same
      have head := resolved.head
      rw [watch_snoc] at head
      have kept := head_keeps_old_text room now (watch_tagged xxHash32 limit room before) mem same
      exact Option.some.inj (kept.symm.trans head)
  · intro clean before path text now reached
    have mirrored := watch_mirrored room injective
      (fun before path text now reached => (clean before path text now reached).2)
      (before ++ [StoreOp.record path text now]) reached
    have stored : find (watch xxHash32 maxPaths limit
        (before ++ [.record path text now])).store.versions path ≠ none := by
      rw [watch_snoc]
      have found := find_set_self (touch (watch xxHash32 maxPaths limit before).store.versions path)
        path (recordVersion ((watch xxHash32 maxPaths limit before).store.history path)
          (watch xxHash32 maxPaths limit before).store.maxVersionsPerPath
          ⟨path,text,computeFileHash xxHash32 text,now⟩) room
      intro gone
      exact absurd (found.symm.trans gone) (by simp)
    have latest : (watch xxHash32 maxPaths limit (before ++ [.record path text now])).recorded path =
        promote text ((watch xxHash32 maxPaths limit before).recorded path) := by
      rw [watch_snoc] at stored ⊢
      simp only [Watched.step] at stored ⊢
      rw [if_neg (by simpa using stored), StoreOp.note, if_pos rfl]
    refine afterRecord_of_mirrored ?_ (watch_tagged xxHash32 limit room _) mirrored latest
    rw [watch_limit]
    exact (clean before path text now reached).1

end Invariants

/- The hash values of the one-letter texts `a` and `b`. -/
def letterHash (text : JsString) : Nat := if text = js "a" then 0x550D7456 else 0xA20CADBF

def blankRun : List StoreOp := [.record (js "f") (js "a ") 1, .record (js "f") (js "a") 2]

/-- The second text differs from the first in a trailing space, so the store keeps the first. -/
theorem trailing_blank_keeps_old_text :
    (∀ s ∈ recordedTexts blankRun, ∀ t ∈ recordedTexts blankRun,
      computeFileHash letterHash s = computeFileHash letterHash t →
        normalizeFileHashText s = normalizeFileHashText t) ∧
      ((watch letterHash 30 4 blankRun).store.head (js "f")).1.map Snapshot.text = some (js "a ") := by
  decide

def letterRun : List StoreOp :=
  [.record (js "f") (js "a") 1, .record (js "f") (js "b") 2, .record (js "f") (js "a") 3]

theorem records_resolve_letters :
    AfterRecord letterHash (watch letterHash 30 4 letterRun) (js "f") (js "a") (js "7456") := by
  have injective : ∀ s ∈ recordedTexts letterRun, ∀ t ∈ recordedTexts letterRun,
      computeFileHash letterHash s = computeFileHash letterHash t →
        normalizeFileHashText s = normalizeFileHashText t := by decide
  have clean : ∀ before path text now, RecordsIn letterRun before path text now →
      0 < 4 ∧ CleanRecord (watch letterHash 30 4 before).store path text := by
    intro before path text now reached
    refine ⟨by decide,?_⟩
    obtain ⟨after,split⟩ := reached
    unfold CleanRecord
    rcases before with _ | ⟨first,_ | ⟨second,_ | ⟨third,rest⟩⟩⟩
    · obtain ⟨⟨rfl,rfl,rfl⟩,rfl⟩ : (path = js "f" ∧ text = js "a" ∧ now = 1) ∧ _ := by
        simpa [letterRun] using split
      decide
    · obtain ⟨rfl,⟨rfl,rfl,rfl⟩,rfl⟩ : first = .record (js "f") (js "a") 1 ∧
          (path = js "f" ∧ text = js "b" ∧ now = 2) ∧ _ := by simpa [letterRun] using split
      decide
    · obtain ⟨rfl,rfl,⟨rfl,rfl,rfl⟩,rfl⟩ : first = .record (js "f") (js "a") 1 ∧
          second = .record (js "f") (js "b") 2 ∧
          (path = js "f" ∧ text = js "a" ∧ now = 3) ∧ _ := by simpa [letterRun] using split
      decide
    · simp [letterRun] at split
  exact (records_resolve_iff (by decide) injective).mpr clean (letterRun.take 2) (js "f") (js "a") 3
    ⟨[],rfl⟩

end Hashline
