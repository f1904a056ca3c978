import OpenAgents.Hashline.Input

/- Which paths the splitter leaves as they are. -/
namespace Hashline
open JsText BacktrackingRegex

/-- What the host's path module is relied on for: the way to a path inside a directory is
    shorter than the absolute path, and `.` is no absolute path. -/
structure NodePath.ShortensInside (np : NodePath) : Prop where
  inside : ∀ dir path, np.isAbsolute path = true → isWithinCwd np (np.relative (np.resolve dir) (np.resolve path)) = true →
    (np.relative (np.resolve dir) (np.resolve path)).length < path.length
  dot : np.isAbsolute (js ".") = false

def Quoted (path : JsString) : Prop :=
  2 ≤ path.length ∧ path.head?.any isQuoteMark = true ∧ path.head? = path.getLast?

/- An absolute path that leads into the working directory is made relative. -/
def InsideCwd (np : NodePath) (cwd : Option JsString) (path : JsString) : Prop :=
  ∃ dir, cwd = some dir ∧ dir ≠ [] ∧ np.isAbsolute path = true ∧
    isWithinCwd np (np.relative (np.resolve dir) (np.resolve path)) = true

structure PlainPath (np : NodePath) (cwd : Option JsString) (path : JsString) : Prop where
  trimmed : trim path = path
  unquoted : ¬Quoted path
  starless : path.head? ≠ some 42
  keywordless : test applyPatchKeywordRegex path = false
  outside : ¬InsideCwd np cwd path

theorem unquote_iff (path : JsString) : unquoteHashlinePath path = path ↔ ¬Quoted path := by
  unfold unquoteHashlinePath Quoted
  by_cases short : path.length < 2
  · rw [if_pos short]
    simp only [true_iff, not_and]
    omega
  · rw [if_neg short]
    by_cases quoted : (path.head?.any isQuoteMark && path.head? == path.getLast?) = true
    · rw [if_pos quoted]
      obtain ⟨mark,same⟩ : path.head?.any isQuoteMark = true ∧ path.head? = path.getLast? := by simpa using quoted
      have shorter : path.tail.dropLast ≠ path := by
        intro same
        have lengths := congrArg List.length same
        simp at lengths
        omega
      exact iff_of_false shorter fun other => other ⟨by omega,mark,same⟩
    · rw [if_neg quoted]
      have other : ¬(path.head?.any isQuoteMark = true ∧ path.head? = path.getLast?) := by simpa using quoted
      simp only [true_iff, not_and] at other ⊢
      exact fun _ => other

theorem unquote_sublist (path : JsString) : (unquoteHashlinePath path).Sublist path := by
  unfold unquoteHashlinePath
  split
  · exact List.Sublist.refl path
  · split
    · exact (List.dropLast_sublist _).trans (List.tail_sublist path)
    · exact List.Sublist.refl path

theorem keyword_local : isLocal applyPatchKeywordRegex = true := by decide
theorem noise_local : isLocal applyPatchPathNoiseRegex = true := by decide

variable {m path rest : JsString} {np : NodePath}

/-- A keyword ends with its colon. -/
theorem keyword_colon (taken : Matches applyPatchKeywordRegex m) : ∃ early, m = early ++ [headerColon] := by
  obtain ⟨x,y,rfl,-,a,b,rfl,-,c,d,rfl,-,e,f,rfl,-,colon,rfl,same⟩ := taken
  obtain rfl : colon = headerColon := by simpa using same
  exact ⟨x ++ (a ++ (c ++ e)),by simp⟩

/-- What follows a path and has no colon completes no keyword. -/
theorem keyword_append (noColon : headerColon ∉ rest) :
    test applyPatchKeywordRegex (path ++ rest) = test applyPatchKeywordRegex path := by
  rw [Bool.eq_iff_iff, test_iff keyword_local, test_iff keyword_local]
  constructor
  · intro found
    obtain ⟨m,after,text,taken⟩ := found
    obtain ⟨early,rfl⟩ := keyword_colon taken
    rcases List.append_eq_append_iff.mp text with ⟨inside,taken',-⟩ | ⟨inside,path',-⟩
    · cases inside with
      | nil => exact ⟨_,[],by simpa using taken'.symm,taken⟩
      | cons c more =>
        exfalso
        rw [taken', List.append_assoc] at text
        have same := List.append_cancel_left text
        have last : headerColon ∈ c :: more := by
          have ends : (path ++ c :: more).getLast? = some headerColon := by rw [← taken']; simp
          rw [List.getLast?_append_of_ne_nil _ (by simp)] at ends
          exact List.mem_of_getLast? ends
        exact noColon (same ▸ List.mem_append_left _ last)
    · exact ⟨_,inside,path',taken⟩
  · intro found
    obtain ⟨m,after,text,taken⟩ := found
    exact ⟨m,after ++ rest,by rw [text, List.append_assoc],taken⟩

theorem strip_suffix (path : JsString) : stripApplyPatchPathNoise path <:+ path := by
  unfold stripApplyPatchPathNoise
  cases found : (run applyPatchPathNoiseRegex path).head? with
  | none => exact List.suffix_refl path
  | some rest => exact first_suffix noise_local found

/-- A shorter remainder at any part of the noise shortens the whole. -/
theorem strip_shorter {path mid : JsString} {first : Regex} (rest : Regex) (noLook : isLocal rest = true)
    (empty : Matches rest []) (shorter : mid.length < path.length) (found : (run first path).head? = some mid) :
    ∃ last, (run (.seq first rest) path).head? = some last ∧ last.length < path.length := by
  obtain ⟨last,after,suffix⟩ := first_exists noLook empty mid
  exact ⟨last,first_seq found after,by have := suffix.length_le; omega⟩

theorem seq_empty {first second : Regex} (one : Matches first []) (two : Matches second []) :
    Matches (.seq first second) [] := ⟨[],[],rfl,one,two⟩

theorem optional_empty (body : Regex) : Matches (.optional body) [] := .inr rfl

def afterKeywordRegex : Regex := .seq blanksRegex (.seq starsRegex blanksRegex)

theorem afterKeyword_empty : Matches afterKeywordRegex [] :=
  seq_empty (star_empty _) (seq_empty (upTo_empty 3 _) (star_empty _))

theorem strip_noise {path last : JsString} (found : (run applyPatchPathNoiseRegex path).head? = some last)
    (shorter : last.length < path.length) : stripApplyPatchPathNoise path ≠ path := by
  unfold stripApplyPatchPathNoise
  rw [found, Option.getD_some]
  intro same
  rw [same] at shorter
  omega

theorem strip_starred (path : JsString) : stripApplyPatchPathNoise (42 :: path) ≠ 42 :: path := by
  obtain ⟨mid,found,suffix⟩ := first_exists (local_upTo (one 42) rfl 2) (upTo_empty 2 _) path
  have taken : (run starsRegex (42 :: path)).head? = some mid := by
    rw [← found]
    exact first_upTo_cons path rfl
  have shorter : mid.length < (42 :: path).length := by
    have := suffix.length_le
    simp
    omega
  obtain ⟨last,whole,less⟩ := strip_shorter (.seq blanksRegex (.seq (.optional applyPatchKeywordRegex)
    afterKeywordRegex)) (by decide) (seq_empty (star_empty _) (seq_empty (optional_empty _) afterKeyword_empty))
    shorter taken
  exact strip_noise whole less

theorem strip_blank {c : CodeUnit} (path : JsString) (blank : isWhitespace c = true) :
    stripApplyPatchPathNoise (c :: path) ≠ c :: path := by
  have starless : (run starsRegex (c :: path)).head? = some (c :: path) := by
    refine first_upTo_stop ?_
    intro d mem
    obtain rfl : c = d := by simpa using mem
    simp only [beq_eq_false_iff_ne]
    rintro rfl
    exact absurd blank (by decide)
  obtain ⟨mid,found,suffix⟩ := first_exists (r := blanksRegex) rfl (star_empty _) path
  have taken : (run blanksRegex (c :: path)).head? = some mid := by
    rw [← found]
    exact first_star_cons path blank
  have shorter : mid.length < (c :: path).length := by
    have := suffix.length_le
    simp
    omega
  obtain ⟨last,whole,less⟩ := strip_shorter (.seq (.optional applyPatchKeywordRegex) afterKeywordRegex)
    (by decide) (seq_empty (optional_empty _) afterKeyword_empty) shorter taken
  exact strip_noise (first_seq starless whole) less

theorem strip_keyword (starless : path.head? ≠ some 42) (visible : ∀ c ∈ path.head?, isWhitespace c = false)
    (keyword : test applyPatchKeywordRegex path = true) : stripApplyPatchPathNoise path ≠ path := by
  have noStars : (run starsRegex path).head? = some path := by
    refine first_upTo_stop ?_
    intro c mem
    simp only [beq_eq_false_iff_ne]
    rintro rfl
    exact starless mem
  have noBlanks : (run blanksRegex path).head? = some path := first_star_stop visible
  cases remainders : run applyPatchKeywordRegex path with
  | nil => simp [test, remainders] at keyword
  | cons mid others =>
    have here : mid ∈ run applyPatchKeywordRegex path := by simp [remainders]
    obtain ⟨m,text,taken⟩ := (mem_run _ keyword_local path mid).mp here
    obtain ⟨early,rfl⟩ := keyword_colon taken
    have shorter : mid.length < path.length := by
      rw [text]
      simp
      omega
    have optional : (run (.optional applyPatchKeywordRegex) path).head? = some mid := by
      simp [run, remainders]
    obtain ⟨last,whole,less⟩ := strip_shorter afterKeywordRegex (by decide) afterKeyword_empty
      shorter optional
    exact strip_noise (first_seq noStars (first_seq noBlanks whole)) less

theorem consumed_nothing {p : CodeUnit → Bool} (all : ∀ c ∈ m, p c = true) (refused : ∀ c ∈ (m ++ rest).head?, p c = false) : m = [] := by
  cases m with
  | nil => rfl
  | cons c m =>
    have yes := all c List.mem_cons_self
    rw [refused c rfl] at yes
    exact absurd yes (by decide)

theorem strip_plain (starless : path.head? ≠ some 42) (visible : ∀ c ∈ path.head?, isWhitespace c = false)
    (keyword : test applyPatchKeywordRegex path = false) : stripApplyPatchPathNoise path = path := by
  unfold stripApplyPatchPathNoise
  cases found : (run applyPatchPathNoiseRegex path).head? with
  | none => rfl
  | some rest =>
    have unstarred : ∀ c ∈ path.head?, (c == 42) = false := by
      intro c mem
      simp only [beq_eq_false_iff_ne]
      rintro rfl
      exact starless mem
    obtain ⟨m,text,taken⟩ := (mem_run _ noise_local path rest).mp (List.mem_of_mem_head? found)
    obtain ⟨a,m,rfl,stars,b,m,rfl,blanks,k,m,rfl,word,d,m,rfl,blanks',e,f,rfl,stars',blanks''⟩ := taken
    simp only [List.append_assoc] at text
    subst text
    obtain rfl : a = [] := consumed_nothing (matches_upTo stars) unstarred
    obtain rfl : b = [] := consumed_nothing (matches_star blanks) visible
    obtain rfl : k = [] := by
      rcases word with taken | none
      · have found : test applyPatchKeywordRegex (k ++ (d ++ (e ++ (f ++ rest)))) = true :=
          (test_iff keyword_local _).mpr ⟨k,_,rfl,taken⟩
        simp only [List.nil_append] at keyword
        rw [keyword] at found
        exact absurd found (by decide)
      · exact none
    obtain rfl : d = [] := consumed_nothing (matches_star blanks') visible
    obtain rfl : e = [] := consumed_nothing (matches_upTo stars') unstarred
    obtain rfl : f = [] := consumed_nothing (matches_star blanks'') visible
    rfl

theorem strip_iff (path : JsString) : stripApplyPatchPathNoise path = path ↔
    path.head? ≠ some 42 ∧ (∀ c ∈ path.head?, isWhitespace c = false) ∧ test applyPatchKeywordRegex path = false := by
  constructor
  · intro kept
    have starless : path.head? ≠ some 42 := by
      intro star
      obtain ⟨tail,rfl⟩ := List.head?_eq_some_iff.mp star
      exact strip_starred tail kept
    have visible : ∀ c ∈ path.head?, isWhitespace c = false := by
      intro c mem
      obtain ⟨tail,rfl⟩ := List.head?_eq_some_iff.mp mem
      by_contra blank
      exact strip_blank tail (by simpa using blank) kept
    refine ⟨starless,visible,?_⟩
    by_contra keyword
    exact strip_keyword starless visible (by simpa using keyword) kept
  · intro plain
    exact strip_plain plain.1 plain.2.1 plain.2.2

/-- Only a path inside the directory is changed, into one that is no longer than it. -/
theorem relative_cases (sound : np.ShortensInside) (cwd : Option JsString) (path : JsString) :
    (¬InsideCwd np cwd path ∧ relativeToCwd np cwd path = path) ∨
      (InsideCwd np cwd path ∧ relativeToCwd np cwd path ≠ path ∧
        (relativeToCwd np cwd path).length ≤ path.length) := by
  unfold relativeToCwd InsideCwd
  cases cwd with
  | none => exact .inl ⟨by simp,rfl⟩
  | some dir =>
    by_cases stays : (dir.isEmpty || !np.isAbsolute path) = true
    · refine .inl ⟨?_,by simp only [stays, if_true]⟩
      intro inside
      obtain ⟨known,same,nonempty,absolute,-⟩ := inside
      cases same
      rcases Bool.or_eq_true_iff.mp stays with empty | relative
      · exact nonempty (List.isEmpty_iff.mp empty)
      · rw [absolute] at relative
        exact absurd relative (by decide)
    · obtain ⟨nonempty,absolute⟩ : dir ≠ [] ∧ np.isAbsolute path = true := by simpa using stays
      simp only [stays, Bool.false_eq_true, if_false]
      by_cases within : isWithinCwd np (np.relative (np.resolve dir) (np.resolve path)) = true
      · have shorter := sound.inside dir path absolute within
        refine .inr ⟨⟨dir,rfl,nonempty,absolute,within⟩,?_⟩
        simp only [within, if_true]
        by_cases empty : (np.relative (np.resolve dir) (np.resolve path)).isEmpty = true
        · rw [if_pos empty]
          have dot : (js ".").length = 1 := by decide
          refine ⟨?_,by omega⟩
          rintro rfl
          rw [sound.dot] at absolute
          exact absurd absolute (by decide)
        · rw [if_neg empty]
          refine ⟨?_,by omega⟩
          intro same
          rw [same] at shorter
          omega
      · refine .inl ⟨?_,by rw [if_neg within]⟩
        intro inside
        obtain ⟨known,same,-,-,leads⟩ := inside
        cases same
        exact within leads

theorem normalize_length (sound : np.ShortensInside) (cwd : Option JsString) (path : JsString) :
    (normalizeHashlinePath np cwd path).length ≤ path.length := by
  have trimmed := (trim_sublist path).length_le
  have unquoted := (unquote_sublist (trim path)).length_le
  have stripped := (strip_suffix (unquoteHashlinePath (trim path))).length_le
  unfold normalizeHashlinePath
  rcases relative_cases sound cwd (stripApplyPatchPathNoise (unquoteHashlinePath (trim path))) with ⟨-,same⟩ | ⟨-,-,shorter⟩
  · rw [same]
    omega
  · omega

/-- The path is its own normal form exactly when nothing is taken off it. -/
theorem normalize_iff (sound : np.ShortensInside) (cwd : Option JsString) (path : JsString) :
    normalizeHashlinePath np cwd path = path ↔ PlainPath np cwd path := by
  constructor
  · intro kept
    have lengths : (normalizeHashlinePath np cwd path).length = path.length := by rw [kept]
    have stripped := (strip_suffix (unquoteHashlinePath (trim path))).length_le
    have unquoted := (unquote_sublist (trim path)).length_le
    have trimmed := (trim_sublist path).length_le
    have enough : path.length ≤ (stripApplyPatchPathNoise (unquoteHashlinePath (trim path))).length := by
      have := relative_cases sound cwd (stripApplyPatchPathNoise (unquoteHashlinePath (trim path)))
      unfold normalizeHashlinePath at lengths
      rcases this with ⟨-,same⟩ | ⟨-,-,shorter⟩
      · rw [same] at lengths
        omega
      · omega
    have noTrim : trim path = path := (trim_sublist path).eq_of_length (by omega)
    rw [noTrim] at stripped unquoted enough
    have noQuote : unquoteHashlinePath path = path := (unquote_sublist path).eq_of_length (by omega)
    rw [noQuote] at stripped enough
    have noNoise : stripApplyPatchPathNoise path = path := (strip_suffix path).eq_of_length (by omega)
    obtain ⟨starless,-,keywordless⟩ := (strip_iff path).mp noNoise
    refine ⟨noTrim,(unquote_iff path).mp noQuote,starless,keywordless,?_⟩
    unfold normalizeHashlinePath at kept
    rw [noTrim, noQuote, noNoise] at kept
    rcases relative_cases sound cwd path with ⟨outside,-⟩ | ⟨-,moved,-⟩
    · exact outside
    · exact absurd kept moved
  · intro plain
    have visible := trimmed_visible plain.trimmed
    unfold normalizeHashlinePath
    rw [plain.trimmed, (unquote_iff path).mpr plain.unquoted,
      (strip_iff path).mpr ⟨plain.starless,visible,plain.keywordless⟩]
    rcases relative_cases sound cwd path with ⟨-,same⟩ | ⟨inside,-⟩
    · exact same
    · exact absurd inside plain.outside

end Hashline
