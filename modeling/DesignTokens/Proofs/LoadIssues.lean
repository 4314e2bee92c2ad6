import DesignTokens.Proofs.DiscoveredFiles
import DesignTokens.Proofs.IncrementalLoading
import DesignTokens.Proofs.RegistryContents

/-!
# Issues of loading

A reload records an issue for each file that it could not load, and a single load replaces the
issues of its file. So a path has at most one issue, or as many as there are files to load by that
path (`Bounded`), and none right after a load of its file that went well.

Settings may list a file twice, and then it has two issues. If no reload meets such settings
(`ListsOnce`), issues are recorded under the paths by which files are known (`Recorded`): no path
has two of them, and a load that goes well leaves none for the path that it was asked for
(`load_issues_per_file`).
-/

namespace DesignTokens

open DesignTokens.Path (components)

/-- No file is to be loaded twice if none is listed twice and none is found twice. -/
lemma Settings.nodup_targets {s : Settings} {fs : FileSystem} {root : Option String}
    {targets : List Target} (h : s.targets fs root = .ok targets) (hproper : fs.root.Proper)
    (hfiles : ((s.files root).map fun t => components t.path).Nodup) :
    (targets.map fun t => components t.path).Nodup := by
  unfold Settings.targets at h
  split at h
  · cases h
  · split_ifs at h
    · split at h
      · cases h
        exact List.nodup_nil
      · next root =>
        cases h
        rw [List.map_map]
        exact Discovery.nodup_tokenFiles hproper root
    · cases h
      exact hfiles

namespace Workspace

/-! ## How many issues there are -/

/-- A path has at most one issue of loading, or as many as there are files to load by that path. -/
def Bounded (w : Workspace) : Prop :=
  ∀ f, (w.loadIssues.map Issue.filePath).count f ≤
    max 1 ((w.targets.map fun t => some t.options.filePath).count f)

/-- A reload records at most one issue for each file to load, in their order. -/
lemma loadIssues_withFiles_sublist (w : Workspace) (fs : FileSystem) (targets : List Target) :
    ((w.withFiles fs targets).loadIssues.map Issue.filePath).Sublist
      (targets.map fun t => some t.options.filePath) := by
  unfold withFiles
  simp only
  induction targets with
  | nil => exact List.Sublist.refl _
  | cons t targets ih =>
    rw [List.map_cons, List.map_cons]
    unfold loadTarget at ih ⊢
    cases readTokenFile fs t.path t.options with
    | ok file => exact ih.cons _
    | error e => exact ih.cons_cons _

lemma filePath_of_mem_others {w : Workspace} {filePath : String} {i : Issue}
    (h : i ∈ w.loadIssues.filter fun i => i.filePath ≠ some filePath) :
    i ∈ w.loadIssues ∧ i.filePath ≠ some filePath := by
  obtain ⟨hmem, hne⟩ := List.mem_filter.mp h
  exact ⟨hmem, of_decide_eq_true hne⟩

/-- After a load the issues are those of other files, and its own if it failed. -/
lemma mem_loadIssues_withFile {w : Workspace} {filePath : String}
    {parsed : Except Error TokenFile} {i : Issue}
    (h : i ∈ (w.withFile filePath parsed).loadIssues) :
    (i ∈ w.loadIssues ∧ i.filePath ≠ some filePath) ∨
      (i.filePath = some filePath ∧ ∃ e, parsed = .error e) := by
  cases parsed with
  | ok file => exact .inl (filePath_of_mem_others h)
  | error e =>
    rcases List.mem_append.mp h with hold | hnew
    · exact .inl (filePath_of_mem_others hold)
    · rw [List.mem_singleton.mp hnew]
      exact .inr ⟨rfl, e, rfl⟩

/-- A load leaves its file one issue if it failed, and none if it went well. -/
lemma count_loadIssues_withFile (w : Workspace) (filePath : String)
    (parsed : Except Error TokenFile) :
    ((w.withFile filePath parsed).loadIssues.map Issue.filePath).count (some filePath) =
      match parsed with
      | .ok _ => 0
      | .error _ => 1 := by
  have hothers : ((w.loadIssues.filter fun i => i.filePath ≠ some filePath).map
      Issue.filePath).count (some filePath) = 0 := by
    rw [List.count_eq_zero, List.mem_map]
    rintro ⟨i, hi, hpath⟩
    exact (filePath_of_mem_others hi).2 hpath
  cases parsed with
  | ok file => exact hothers
  | error e =>
    change ((w.loadIssues.filter _ ++ [loadIssue filePath e]).map Issue.filePath).count _ = 1
    rw [List.map_append, List.count_append, hothers, Nat.zero_add]
    exact List.count_singleton_self

/-- A load leaves no other file more issues than it had. -/
lemma count_loadIssues_withFile_le (w : Workspace) {filePath : String}
    (parsed : Except Error TokenFile) {f : Option String} (hf : f ≠ some filePath) :
    ((w.withFile filePath parsed).loadIssues.map Issue.filePath).count f ≤
      (w.loadIssues.map Issue.filePath).count f := by
  have hothers : ((w.loadIssues.filter fun i => i.filePath ≠ some filePath).map
      Issue.filePath).count f ≤ (w.loadIssues.map Issue.filePath).count f :=
    (List.filter_sublist.map Issue.filePath).count_le f
  cases parsed with
  | ok file => exact hothers
  | error e =>
    have hnew : ([loadIssue filePath e].map Issue.filePath).count f = 0 := by
      rw [List.count_eq_zero, List.map_singleton, List.mem_singleton]
      exact hf
    change ((w.loadIssues.filter _ ++ [loadIssue filePath e]).map Issue.filePath).count f ≤ _
    rw [List.map_append, List.count_append, hnew, Nat.add_zero]
    exact hothers

lemma targets_withFile (w : Workspace) (filePath : String) (parsed : Except Error TokenFile) :
    (w.withFile filePath parsed).targets = w.targets := by
  cases parsed with
  | ok file => rfl
  | error e => rfl

/-- Reading keeps the issues bounded. -/
lemma bounded_of_read {w w' : Workspace} {p : Pass} (h : p.read w = .ok w') (hw : Bounded w) :
    Bounded w' := by
  intro f
  rcases Pass.read_cases h with ⟨fs, targets, -, -, rfl⟩ | ⟨filePath, parsed, -, rfl, -⟩ | ⟨-, rfl⟩
  · exact ((loadIssues_withFiles_sublist w fs targets).count_le f).trans (le_max_right _ _)
  · rw [targets_withFile]
    by_cases hf : f = some filePath
    · refine le_trans ?_ (le_max_left _ _)
      rw [hf, count_loadIssues_withFile]
      cases parsed with
      | ok file => exact Nat.zero_le 1
      | error e => exact le_rfl
    · exact (count_loadIssues_withFile_le w parsed hf).trans (hw f)
  · exact hw f

/-- The issues are bounded after every run. -/
lemma bounded_after (ops : List Operation) : Bounded (after ops) := by
  refine after_invariant ?_ ?_ ?_ ?_ ops
  · exact fun f => Nat.zero_le _
  · exact fun w settings h => h
  · exact fun w root h => h
  · intro w p w' h hread
    have hread' := bounded_of_read hread h
    rw [resolveAll_eq]
    exact hread'

/-! ## Where issues are recorded -/

/-- The files to load are different ones. -/
def Apart (w : Workspace) : Prop :=
  (w.targets.map fun t => components t.path).Nodup

/-- Each issue of loading has the path by which its file is known. -/
def Recorded (w : Workspace) : Prop :=
  ∀ i ∈ w.loadIssues, ∃ f, i.filePath = some f ∧ (w.optionsFor f).filePath = f

/-- By which path a file is known depends on the files to load alone. -/
lemma filePath_optionsFor_congr {w w' : Workspace} (h : w'.targets = w.targets) (path : String) :
    (w'.optionsFor path).filePath = (w.optionsFor path).filePath := by
  unfold optionsFor
  rw [h]
  cases w.targets.find? fun t => Path.same t.path path with
  | none => rfl
  | some t => rfl

/-- Where issues are recorded depends on the files to load and the issues alone. -/
lemma Recorded.congr {w w' : Workspace} (h : Recorded w) (htargets : w'.targets = w.targets)
    (hissues : w'.loadIssues = w.loadIssues) : Recorded w' := by
  intro i hi
  rw [hissues] at hi
  obtain ⟨f, hf, hknown⟩ := h i hi
  exact ⟨f, hf, (filePath_optionsFor_congr htargets f).trans hknown⟩

/-- The path by which a file is known is the one by which it is known itself. -/
lemma InPlace.filePath_optionsFor {w : Workspace} (h : InPlace w) (path : String) :
    (w.optionsFor (w.optionsFor path).filePath).filePath = (w.optionsFor path).filePath := by
  have hsame := h.components_optionsFor path
  cases hfind : w.targets.find? fun t => Path.same t.path path with
  | none =>
    have hpath : (w.optionsFor path).filePath = path := by
      rw [optionsFor, hfind]
      rfl
    rw [hpath, hpath]
  | some t =>
    -- The search compares components, and those of both paths are the same.
    have hfind' : w.targets.find? (fun t => Path.same t.path (w.optionsFor path).filePath) =
        some t := by
      unfold Path.same at hfind ⊢
      rw [hsame]
      exact hfind
    rw [optionsFor, hfind', optionsFor, hfind]

/-- The path asked for by a pass that loads one file. -/
def Pass.path? : Pass → Option String
  | .loadFile _ path => some path
  | .loadText _ path _ => some path
  | _ => none

/-- The file is loaded under the path by which it is known. -/
lemma Pass.path?_of_file? {w : Workspace} {p : Pass} {filePath : String}
    {parsed : Except Error TokenFile} (h : p.file? w = some (filePath, parsed)) :
    ∃ path, p.path? = some path ∧ (w.optionsFor path).filePath = filePath := by
  cases p with
  | reload fs => cases h
  | loadFile fs path =>
    cases h
    exact ⟨path, rfl, rfl⟩
  | loadText fs path text =>
    cases h
    exact ⟨path, rfl, rfl⟩
  | resolveAll => cases h

/-- The issues of loading all files have the paths by which the files are known. -/
lemma recorded_withFiles {w : Workspace} {fs : FileSystem} {targets : List Target}
    (hpaths : ∀ t ∈ targets, t.options.filePath = t.path)
    (hapart : Apart (w.withFiles fs targets)) : Recorded (w.withFiles fs targets) := by
  intro i hi
  have hmem := (loadIssues_withFiles_sublist w fs targets).subset (List.mem_map_of_mem hi)
  obtain ⟨t, ht, hi⟩ := List.mem_map.mp hmem
  refine ⟨t.options.filePath, hi.symm, ?_⟩
  rw [optionsFor_eq hapart rfl ht (congrArg components (hpaths t ht).symm)]

/-- So has the issue of loading one file, and the others keep theirs. -/
lemma recorded_withFile {w : Workspace} (hplace : InPlace w) (hw : Recorded w) {p : Pass}
    {filePath : String} {parsed : Except Error TokenFile}
    (hfile : p.file? w = some (filePath, parsed)) : Recorded (w.withFile filePath parsed) := by
  intro i hi
  rcases mem_loadIssues_withFile hi with ⟨hold, -⟩ | ⟨hnew, -⟩
  · obtain ⟨f, hf, hknown⟩ := hw i hold
    exact ⟨f, hf, (filePath_optionsFor_congr (targets_withFile ..) f).trans hknown⟩
  · obtain ⟨path, -, rfl⟩ := Pass.path?_of_file? hfile
    refine ⟨_, hnew, ?_⟩
    rw [filePath_optionsFor_congr (targets_withFile ..)]
    exact hplace.filePath_optionsFor path

/-- Reading keeps issues at the paths of their files, as long as these are different ones. -/
lemma recorded_of_read {w w' : Workspace} {p : Pass} (h : p.read w = .ok w') (hplace : InPlace w)
    (hw : Apart w → Recorded w) (hapart : Apart w') : Recorded w' := by
  rcases Pass.read_cases h with ⟨fs, targets, -, htargets, rfl⟩ |
    ⟨filePath, parsed, hfile, rfl, -⟩ | ⟨-, rfl⟩
  · exact recorded_withFiles (Settings.filePath_of_mem_targets htargets) hapart
  · rw [Apart, targets_withFile] at hapart
    exact recorded_withFile hplace (hw hapart) hfile
  · exact hw hapart

/-- After every run that leaves different files to load, issues have the paths of their files. -/
lemma recorded_after (ops : List Operation) : Apart (after ops) → Recorded (after ops) := by
  suffices h : InPlace (after ops) ∧ (Apart (after ops) → Recorded (after ops)) from h.2
  refine after_invariant (P := fun w => InPlace w ∧ (Apart w → Recorded w)) ?_ ?_ ?_ ?_ ops
  · exact ⟨inPlace_after [], fun _ i hi => nomatch hi⟩
  · exact fun w settings h => ⟨⟨h.1.targets, h.1.sources⟩, fun ha => (h.2 ha).congr rfl rfl⟩
  · exact fun w root h => ⟨⟨h.1.targets, h.1.sources⟩, fun ha => (h.2 ha).congr rfl rfl⟩
  · intro w p w' h hread
    have hplace := inPlace_of_read hread h.1
    rw [resolveAll_eq]
    refine ⟨⟨hplace.targets, hplace.sources⟩, fun hapart => ?_⟩
    exact (recorded_of_read hread h.1 h.2 hapart).congr rfl rfl

/-! ## Settings that list each file once -/

/-- Whenever the files are read anew, the settings list no file twice, and the names in the
directories are different ones. -/
def ListsOnce (ops : List Operation) : Prop :=
  ∀ before fs rest, ops = before ++ .pass (.reload fs) :: rest →
    fs.root.Proper ∧
    (((after before).settings.files (after before).root).map fun t => components t.path).Nodup

/-- A run that lists every file once does so up to each of its operations. -/
lemma ListsOnce.of_concat {ops : List Operation} {o : Operation} (h : ListsOnce (ops ++ [o])) :
    ListsOnce ops := by
  intro before fs rest hops
  refine h before fs (rest ++ [o]) ?_
  rw [hops, List.append_assoc, List.cons_append]

/-- The files to load are different ones if every file is listed once. -/
lemma apart_after {ops : List Operation} (h : ListsOnce ops) : Apart (after ops) := by
  induction ops using List.reverseRecOn with
  | nil => exact List.nodup_nil
  | append_singleton ops o ih =>
    have hbefore := ih h.of_concat
    rw [after_concat]
    cases o with
    | setSettings settings => exact hbefore
    | setRoot root => exact hbefore
    | pass p =>
      rw [Operation.perform]
      cases hread : p.read (after ops) with
      | error e =>
        rw [Pass.run_of_read_error hread]
        exact hbefore
      | ok w' =>
        rw [(Pass.run_of_read hread).1, resolveAll_eq]
        -- Only a reload settles on new files.
        rcases Pass.read_cases hread with ⟨fs, targets, rfl, htargets, rfl⟩ |
          ⟨filePath, parsed, -, rfl, -⟩ | ⟨-, rfl⟩
        · obtain ⟨hproper, hfiles⟩ := h ops fs [] rfl
          exact Settings.nodup_targets htargets hproper hfiles
        · change (List.map _ ((after ops).withFile filePath parsed).targets).Nodup
          rw [targets_withFile]
          exact hbefore
        · exact hbefore

/-- Different files to load leave no path with two issues. -/
lemma nodup_loadIssues {w : Workspace} (hplace : InPlace w) (hbounded : Bounded w)
    (hapart : Apart w) : (w.loadIssues.map Issue.filePath).Nodup := by
  rw [List.nodup_iff_count_le_one]
  intro f
  -- Files with different components have different paths all the more.
  have hpaths : (w.targets.map fun t => some t.options.filePath).Nodup := by
    have hsome : (w.targets.map fun t => some t.options.filePath) =
        (w.targets.map Target.path).map some := by
      rw [List.map_map]
      exact List.map_congr_left fun t ht => congrArg some (hplace.targets t ht)
    rw [hsome]
    refine List.Nodup.map (fun _ _ => Option.some.inj) (List.Nodup.of_map components ?_)
    rw [List.map_map]
    exact hapart
  exact (hbounded f).trans (max_le le_rfl (List.nodup_iff_count_le_one.mp hpaths f))

/-- A path has at most one issue of loading, or as many as the last reload was given files by that
path; a load leaves the path of its file one issue if it failed, and none if it went well. If the
settings never list a file twice, no path has two, and a load that goes well leaves none for the
path that it was asked for either. -/
theorem load_issues_per_file (ops : List Operation) :
    Bounded (after ops) ∧
    (∀ p filePath parsed, Pass.file? (after ops) p = some (filePath, parsed) →
      ((p.run (after ops)).1.loadIssues.map Issue.filePath).count (some filePath) =
        match parsed with
        | .ok _ => 0
        | .error _ => 1) ∧
    (ListsOnce ops →
      ((after ops).loadIssues.map Issue.filePath).Nodup ∧
      ∀ p path filePath file, p.path? = some path →
        Pass.file? (after ops) p = some (filePath, .ok file) →
        ∀ i ∈ (p.run (after ops)).1.loadIssues, i.filePath ≠ some path) := by
  have hrun : ∀ p filePath parsed, Pass.file? (after ops) p = some (filePath, parsed) →
      (p.run (after ops)).1.loadIssues = ((after ops).withFile filePath parsed).loadIssues := by
    intro p filePath parsed hfile
    rw [(Pass.run_of_read (Pass.read_of_file? hfile)).1, resolveAll_eq]
  refine ⟨bounded_after ops, ?_, fun honce => ?_⟩
  · intro p filePath parsed hfile
    rw [hrun p filePath parsed hfile]
    exact count_loadIssues_withFile _ filePath parsed
  · have hapart := apart_after honce
    refine ⟨nodup_loadIssues (inPlace_after ops) (bounded_after ops) hapart, ?_⟩
    intro p path filePath file hpath hfile i hi hissue
    rw [hrun p filePath _ hfile] at hi
    rcases mem_loadIssues_withFile hi with ⟨hold, hne⟩ | ⟨-, e, he⟩
    · -- An earlier issue of the path asked for would have the path by which the file is known.
      obtain ⟨f, hf, hknown⟩ := recorded_after ops hapart i hold
      obtain ⟨path', hpath', hfilePath⟩ := Pass.path?_of_file? hfile
      obtain rfl : path = path' := Option.some.inj (hpath.symm.trans hpath')
      obtain rfl : f = path := Option.some.inj (hf.symm.trans hissue)
      exact hne (by rw [hissue, ← hfilePath, hknown])
    · cases he

/-- A directory with two token files that are no documents. -/
def brokenFiles : FileSystem :=
  ⟨.directory [("r", .directory [("a.tokens.json", .file "?".toUTF8),
    ("b.tokens.json", .file "?".toUTF8)])], []⟩

lemma proper_brokenFiles : brokenFiles.root.Proper := by
  refine .directory (by decide) (by decide) fun e he => ?_
  obtain rfl := List.mem_singleton.mp he
  refine .directory (by decide) (by decide) fun e he => ?_
  rcases List.mem_pair.mp he with rfl | rfl
  · exact .file _
  · exact .file _

/-- The settings list no files, so the two are found. -/
def brokenRun : List Operation :=
  [.setRoot (some "/r"), .pass (.reload brokenFiles)]

lemma listsOnce_brokenRun : ListsOnce brokenRun := by
  intro before fs rest hops
  have hlength := congrArg List.length hops
  -- The reload is the last of the two operations.
  have hlast : before = brokenRun.take 1 ∧ fs = brokenFiles := by
    rcases before with _ | ⟨o, _ | ⟨o', before⟩⟩
    · cases hops
    · cases hops
      exact ⟨rfl, rfl⟩
    · simp [brokenRun] at hlength
  obtain ⟨rfl, rfl⟩ := hlast
  exact ⟨proper_brokenFiles, List.nodup_nil⟩

lemma after_brokenRun :
    after brokenRun = (withFiles { root := some "/r" } brokenFiles
      (["/r/a.tokens.json", "/r/b.tokens.json"].map fun path =>
        ⟨path, Settings.optionsFor {} path⟩)).resolveAll.1 := by
  have hfound : Discovery.tokenFiles brokenFiles "/r" =
      ["/r/a.tokens.json", "/r/b.tokens.json"] := by
    change List.mergeSort ["/r/a.tokens.json", "/r/b.tokens.json"] Path.le = _
    exact List.mergeSort_of_pairwise (by decide)
  rw [← hfound]
  rfl

/-- Whether a pass loads one file, known by a path, and that goes well. -/
def Pass.takesIn (w : Workspace) (p : Pass) (filePath : String) : Bool :=
  (p.file? w).any fun f => f.1 = filePath && f.2.toOption.isSome

/-- A pass that takes a file in has parsed it. -/
lemma Pass.file?_of_takesIn {w : Workspace} {p : Pass} {filePath : String}
    (h : p.takesIn w filePath = true) : ∃ file, p.file? w = some (filePath, .ok file) := by
  obtain ⟨⟨path, parsed⟩, hfile, hview⟩ := Option.any_eq_true _ _ |>.mp h
  obtain ⟨hpath, hok⟩ := Bool.and_eq_true_iff.mp hview
  obtain ⟨file, hok⟩ := Option.isSome_iff_exists.mp hok
  obtain rfl : path = filePath := of_decide_eq_true hpath
  obtain rfl : parsed = .ok file := toOption_eq_some.mp hok
  exact ⟨file, hfile⟩

/-- An empty document is given for the first file, under another spelling of its path. -/
def respeltLoad : Pass := .loadText .empty "/r/./a.tokens.json" "\x7b\x7d"

/-- The load clears the issue of the first file under both spellings. -/
theorem load_issues_per_file_found :
    (after brokenRun).loadIssues.map Issue.filePath =
      [some "/r/a.tokens.json", some "/r/b.tokens.json"] ∧
    ((after brokenRun).loadIssues.map Issue.filePath).Nodup ∧
    (∃ file, respeltLoad.file? (after brokenRun) = some ("/r/a.tokens.json", .ok file)) ∧
    ((respeltLoad.run (after brokenRun)).1.loadIssues.map Issue.filePath).count
      (some "/r/a.tokens.json") = 0 ∧
    ∀ i ∈ (respeltLoad.run (after brokenRun)).1.loadIssues,
      i.filePath ≠ some "/r/./a.tokens.json" := by
  obtain ⟨-, hcount, honce⟩ := load_issues_per_file brokenRun
  obtain ⟨hnodup, hasked⟩ := honce listsOnce_brokenRun
  obtain ⟨file, hfile⟩ : ∃ file, respeltLoad.file? (after brokenRun) =
      some ("/r/a.tokens.json", .ok file) := by
    rw [after_brokenRun]
    exact Pass.file?_of_takesIn (by decide +kernel)
  have hissues : (after brokenRun).loadIssues.map Issue.filePath =
      [some "/r/a.tokens.json", some "/r/b.tokens.json"] := by
    rw [after_brokenRun]
    decide +kernel
  exact ⟨hissues, hnodup, ⟨file, hfile⟩, hcount _ _ _ hfile,
    hasked _ _ _ file rfl hfile⟩

/-- A file is listed under two paths, or twice under one, and is not there. -/
def repeatedRun (first second : String) : List Operation :=
  [.setRoot (some "/r"), .setSettings { tokenFiles := [.bare first, .bare second] },
    .pass (.reload .empty)]

/-- A file that is listed twice has two issues. If it is listed under two spellings, a load that
goes well leaves the issue of the very path that it was asked for. -/
theorem load_issues_repeated :
    (after (repeatedRun "a.tokens.json" "a.tokens.json")).loadIssues.map Issue.filePath =
      [some "/r/a.tokens.json", some "/r/a.tokens.json"] ∧
    (∃ file, respeltLoad.file? (after (repeatedRun "a.tokens.json" "./a.tokens.json")) =
      some ("/r/a.tokens.json", .ok file)) ∧
    (respeltLoad.run (after (repeatedRun "a.tokens.json" "./a.tokens.json"))).1.loadIssues.map
      Issue.filePath = [some "/r/./a.tokens.json"] := by
  refine ⟨by decide +kernel, Pass.file?_of_takesIn (by decide +kernel), by decide +kernel⟩

end Workspace

end DesignTokens
