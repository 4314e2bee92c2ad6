import DesignTokens.Proofs.EditorRuns
import DesignTokens.Proofs.IncrementalLoading
import Mathlib.Data.List.Perm.Subperm

/-!
# The texts of token files

The tokens of a file are written by two sides: a reload reads the file from disk, and a text of the
editor takes the place of what the file holds. The one that comes last counts. So for each file the
events tell where its tokens come from (`origin?`), and the workspace has just these tokens
(`sourced_performAll`). The text of an open document is in force until the next reload or another
document of the file (`open_text_until_reload`), and not beyond (`reload_overrules_text`).
-/

namespace DesignTokens

open DesignTokens.Path (components)

/-! ## Settings -/

namespace Settings

/-- Settings that are read are valid. -/
lemma validate_of_ofJson {v : Json.Value} {s : Settings} (h : ofJson v = .ok s) :
    s.validate = .ok () := by
  unfold ofJson at h
  split at h
  · cases h
    rfl
  · split at h
    · cases h
      rfl
    · split at h
      · cases h
      · next s' _ =>
        cases hvalid : s'.validate with
        | error e =>
          rw [hvalid] at h
          cases h
        | ok =>
          rw [hvalid] at h
          cases h
          exact hvalid
  · cases h

lemma validate_of_ofPackage {fs : FileSystem} {root : String} {s : Settings}
    (h : ofPackage fs root = .ok (some s)) : s.validate = .ok () := by
  unfold ofPackage at h
  simp only at h
  split_ifs at h
  · cases h
  · split at h
    · cases h
    · split at h
      · cases h
      · split at h
        · cases h
        · next part _ =>
          cases hpart : ofJson part with
          | error e =>
            rw [hpart] at h
            cases h
          | ok s' =>
            rw [hpart] at h
            cases h
            exact validate_of_ofJson hpart

/-- Filling valid settings from valid ones leaves them valid. -/
lemma validate_fillFrom {s other : Settings} (hs : s.validate = .ok ())
    (hother : other.validate = .ok ()) : (s.fillFrom other).validate = .ok () := by
  rw [validate_eq_ok] at hs hother ⊢
  unfold fillFrom
  simp only
  split_ifs
  · exact hother
  · exact hs

/-- Valid settings always have targets. -/
lemma exists_targets {s : Settings} (h : s.validate = .ok ()) (fs : FileSystem)
    (root : Option String) : ∃ targets, s.targets fs root = .ok targets := by
  unfold targets
  rw [h]
  simp only
  split_ifs
  · cases root with
    | none => exact ⟨_, rfl⟩
    | some root => exact ⟨_, rfl⟩
  · exact ⟨_, rfl⟩

end Settings

/-- The server never has settings that a reload would refuse. -/
lemma Editor.Server.validate_settingsFrom (fs : FileSystem) (root : Option String)
    (given : Json.Value) : (settingsFrom fs root given).validate = .ok () := by
  have hown : ((Settings.ofJson given).toOption.getD {}).validate = .ok () := by
    cases hgiven : Settings.ofJson given with
    | error e => rfl
    | ok s => exact Settings.validate_of_ofJson hgiven
  unfold settingsFrom
  simp only
  split
  · next package hpackage =>
    obtain ⟨root', -, hroot⟩ := Option.map_eq_some_iff.mp hpackage
    exact Settings.validate_fillFrom hown (Settings.validate_of_ofPackage hroot)
  · exact hown

namespace Workspace

/-! ## Sources -/

/-- A source is replaced or added, and the others are found as before. -/
lemma find?_setSource (s : Source) (sources : List Source) (filePath : String) :
    (setSource s sources).find? (fun s' => s'.filePath = filePath) =
      if s.filePath = filePath then some s
      else sources.find? fun s' => s'.filePath = filePath := by
  induction sources with
  | nil =>
    rw [setSource, List.find?_cons]
    by_cases h : s.filePath = filePath
    · simp [h]
    · simp [h]
  | cons t rest ih =>
    rw [setSource]
    by_cases hsame : t.filePath = s.filePath
    · rw [if_pos hsame, List.find?_cons, List.find?_cons, hsame]
      by_cases h : s.filePath = filePath
      · simp [h]
      · simp [h]
    · rw [if_neg hsame, List.find?_cons, List.find?_cons, ih]
      by_cases h : s.filePath = filePath
      · have ht : t.filePath ≠ filePath := fun heq => hsame (heq.trans h.symm)
        simp [h, ht]
      · simp [h]

/-- A source takes the place of one of its file, or is new. -/
lemma map_filePath_setSource (s : Source) (sources : List Source) :
    (setSource s sources).map Source.filePath =
      if s.filePath ∈ sources.map Source.filePath then sources.map Source.filePath
      else sources.map Source.filePath ++ [s.filePath] := by
  induction sources with
  | nil => rfl
  | cons t rest ih =>
    rw [setSource]
    by_cases hsame : t.filePath = s.filePath
    · simp [hsame]
    · rw [if_neg hsame, List.map_cons, ih, List.map_cons]
      by_cases hmem : s.filePath ∈ rest.map Source.filePath
      · rw [if_pos hmem, if_pos (List.mem_cons_of_mem _ hmem)]
      · rw [if_neg hmem, if_neg (by simpa [Ne.symm hsame] using hmem), List.cons_append]

/-- The settings can be used, files are known by their paths, and each source is that of a file to
load. A file that is listed more than once may have as many sources. -/
structure Settled (w : Workspace) : Prop where
  valid : w.settings.validate = .ok ()
  known : ∀ t ∈ w.targets, t.options.filePath = t.path
  backed : (w.sources.map Source.filePath).Subperm (w.targets.map Target.path)

variable {w : Workspace}

/-- A token file is one of the files to load. -/
lemma Settled.exists_target (h : Settled w) {path : String} (htoken : w.isTokenFile path = true) :
    ∃ t ∈ w.targets, w.targets.find? (fun t => Path.same t.path path) = some t ∧
      components t.path = components path := by
  have hany : w.targets.any (fun t => Path.same t.path path) = true := by
    rcases Bool.or_eq_true_iff.mp htoken with htarget | hsource
    · exact htarget
    · obtain ⟨s, hs, hpath⟩ := List.any_eq_true.mp hsource
      obtain ⟨t, ht, heq⟩ := List.mem_map.mp (h.backed.subset (List.mem_map_of_mem hs))
      have hpath : s.filePath = path := of_decide_eq_true hpath
      exact List.any_eq_true.mpr ⟨t, ht, by rw [heq, hpath]; exact decide_eq_true rfl⟩
  obtain ⟨t, ht⟩ := Option.isSome_iff_exists.mp (List.find?_isSome.mpr (List.any_eq_true.mp hany))
  have hsame := List.find?_some ht
  exact ⟨t, List.mem_of_find?_eq_some ht, ht, of_decide_eq_true hsame⟩

lemma optionsFor_of_find? {t : Target} {path : String}
    (h : w.targets.find? (fun t => Path.same t.path path) = some t) :
    w.optionsFor path = t.options := by
  rw [optionsFor, h]

lemma isTokenFile_of_find? {t : Target} {path : String}
    (h : w.targets.find? (fun t => Path.same t.path path) = some t) :
    w.isTokenFile path = true := by
  have hsame := List.find?_some h
  exact isTokenFile_of_mem (List.mem_of_find?_eq_some h) hsame

/-! ## Reloads -/

/-- A reload loads the files of the targets and resolves all of them. -/
lemma reload_of_targets {fs : FileSystem} {targets : List Target}
    (h : w.settings.targets fs w.root = .ok targets) :
    (w.reload fs).1 = (w.withFiles fs targets).resolveAll.1 := by
  rw [reload, h]

/-- After a reload the sources are the targets that could be loaded. -/
lemma sources_reload {fs : FileSystem} {targets : List Target}
    (h : w.settings.targets fs w.root = .ok targets) :
    (w.reload fs).1.sources = targets.filterMap fun t => (loadTarget fs t).toOption := by
  rw [reload_of_targets h, resolveAll_eq]
  exact sources_withFiles w fs targets

lemma targets_reload {fs : FileSystem} {targets : List Target}
    (h : w.settings.targets fs w.root = .ok targets) : (w.reload fs).1.targets = targets := by
  rw [reload_of_targets h, resolveAll_eq]
  rfl

/-- A reload leaves the workspace settled. -/
lemma Settled.reload (h : Settled w) (fs : FileSystem) : Settled (w.reload fs).1 := by
  obtain ⟨targets, htargets⟩ := Settings.exists_targets h.valid fs w.root
  have hknown := Settings.filePath_of_mem_targets htargets
  refine ⟨?_, ?_, ?_⟩
  · rw [reload_of_targets htargets, resolveAll_eq]
    exact h.valid
  · rw [targets_reload htargets]
    exact hknown
  · rw [sources_reload htargets, targets_reload htargets]
    refine List.Sublist.subperm ?_
    clear htargets
    induction targets with
    | nil => exact List.Sublist.slnil
    | cons t rest ih =>
      have hrest := ih fun t' ht' => hknown t' (List.mem_cons_of_mem _ ht')
      rw [List.filterMap_cons, List.map_cons]
      split
      · exact hrest.cons _
      · next s hs =>
        obtain ⟨file, -, rfl⟩ := loadTarget_eq_ok.mp (toOption_eq_some.mp hs)
        rw [List.map_cons, hknown t (List.mem_cons_self ..)]
        exact hrest.cons_cons _

/-- Whether a file can be loaded does not depend on its options. -/
lemma loadTarget_congr {fs : FileSystem} {t t' : Target} {s' : Source} (hpath : t'.path = t.path)
    (h : loadTarget fs t' = .ok s') : ∃ s, loadTarget fs t = .ok s := by
  obtain ⟨file, hread, -⟩ := loadTarget_eq_ok.mp h
  obtain ⟨content, hcontent, hparse⟩ := readTokenFile_eq_ok.mp hread
  obtain ⟨file', hfile'⟩ := exists_parse_congr hparse (completeOptions fs t.path t.options)
  rw [hpath] at hcontent hfile'
  exact ⟨_, loadTarget_eq_ok.mpr
    ⟨file', readTokenFile_eq_ok.mpr ⟨content, hcontent, hfile'⟩, rfl⟩⟩

/-- The first source of a file is that of the first entry for it. -/
lemma find?_loaded {fs : FileSystem} {path : String} {t : Target} {targets : List Target}
    (hknown : ∀ t ∈ targets, t.options.filePath = t.path)
    (hfind : targets.find? (fun t => Path.same t.path path) = some t) :
    (targets.filterMap fun t => (loadTarget fs t).toOption).find?
        (fun s => s.filePath = t.path) =
      (loadTarget fs t).toOption := by
  have hfile : ∀ t' ∈ targets, ∀ s, (loadTarget fs t').toOption = some s →
      s.filePath = t'.path := by
    intro t' ht' s hs
    obtain ⟨file, -, rfl⟩ := loadTarget_eq_ok.mp (toOption_eq_some.mp hs)
    exact hknown t' ht'
  induction targets with
  | nil => cases hfind
  | cons t' rest ih =>
    have hfile' := hfile t' (List.mem_cons_self ..)
    rw [List.find?_cons] at hfind
    rw [List.filterMap_cons]
    split at hfind
    · cases hfind
      cases hload : (loadTarget fs t).toOption with
      | some s =>
        simp only
        rw [List.find?_cons_of_pos (by simpa using hfile' s hload)]
      | none =>
        -- Then no other entry for the file can be loaded either.
        simp only
        rw [List.find?_eq_none]
        intro s hs hpath
        obtain ⟨t'', ht'', hload''⟩ := List.mem_filterMap.mp hs
        have hpath : s.filePath = t.path := of_decide_eq_true hpath
        have hsame := (hfile t'' (List.mem_cons_of_mem _ ht'') s hload'').symm.trans hpath
        obtain ⟨s', hs'⟩ := loadTarget_congr hsame (toOption_eq_some.mp hload'')
        rw [hs'] at hload
        cases hload
    · next hother =>
      have hrest := ih (fun u hu => hknown u (List.mem_cons_of_mem _ hu)) hfind
        fun u hu => hfile u (List.mem_cons_of_mem _ hu)
      have hne : t'.path ≠ t.path := by
        intro heq
        have hsame := List.find?_some hfind
        rw [heq] at hother
        exact Bool.false_ne_true (hother.symm.trans hsame)
      split
      · exact hrest
      · next s hs =>
        have hs' : s.filePath ≠ t.path := fun heq => hne ((hfile' s hs).symm.trans heq)
        rw [List.find?_cons_of_neg (by simpa using hs')]
        exact hrest

/-! ## Texts -/

lemma loadText_eq (w : Workspace) (fs : FileSystem) (path text : String) :
    (w.loadText fs path text).1 =
      (w.withFile (w.optionsFor path).filePath (TokenFile.parse text (.ofPath path)
        { w.optionsFor path with definitionUri := fileUri fs path })).resolveAll.1 :=
  (Pass.run_of_read (p := .loadText fs path text) (Pass.read_of_file? rfl)).1

/-- What is done to the sources; files and settings stay. -/
lemma loadText_cases (w : Workspace) (fs : FileSystem) (path text : String) :
    (w.loadText fs path text).1.sources =
      ((TokenFile.parse text (.ofPath path)
        { w.optionsFor path with definitionUri := fileUri fs path }).toOption.elim w.sources
          fun file => setSource ⟨(w.optionsFor path).filePath, file.tokens⟩ w.sources) ∧
    (w.loadText fs path text).1.targets = w.targets ∧
    (w.loadText fs path text).1.settings = w.settings := by
  rw [loadText_eq, resolveAll_eq]
  cases TokenFile.parse text (.ofPath path)
    { w.optionsFor path with definitionUri := fileUri fs path } with
  | error e => exact ⟨rfl, rfl, rfl⟩
  | ok file => exact ⟨rfl, rfl, rfl⟩

/-- Loading the text of a token file leaves the workspace settled. -/
lemma Settled.loadText (h : Settled w) {path : String} (htoken : w.isTokenFile path = true)
    (fs : FileSystem) (text : String) : Settled (w.loadText fs path text).1 := by
  obtain ⟨hsources, htargets, hsettings⟩ := loadText_cases w fs path text
  refine ⟨?_, ?_, ?_⟩
  · rw [hsettings]
    exact h.valid
  · rw [htargets]
    exact h.known
  · rw [htargets, hsources]
    cases (TokenFile.parse text (.ofPath path)
      { w.optionsFor path with definitionUri := fileUri fs path }).toOption with
    | none => exact h.backed
    | some file =>
      obtain ⟨t, ht, hfind, -⟩ := h.exists_target htoken
      have hmem : (w.optionsFor path).filePath ∈ w.targets.map Target.path := by
        rw [optionsFor_of_find? hfind, h.known t ht]
        exact List.mem_map_of_mem ht
      rw [Option.elim_some, map_filePath_setSource]
      split_ifs with hold
      · exact h.backed
      · refine (List.perm_append_singleton _ _).subperm.trans ?_
        exact List.cons_subperm_of_not_mem_of_mem hold hmem h.backed

/-! ## The tokens of a file -/

/-- The tokens of the first source of a file. There are more sources only if the file is listed more
than once. -/
def sourceTokens? (w : Workspace) (path : String) : Option (List Token) :=
  (w.sources.find? fun s => s.filePath = (w.optionsFor path).filePath).map Source.tokens

/-- In a settled workspace the source of a path is that of its target. -/
lemma sourceTokens?_of_find? (h : Settled w) {t : Target} {path : String}
    (hfind : w.targets.find? (fun t => Path.same t.path path) = some t) :
    w.sourceTokens? path = (w.sources.find? fun s => s.filePath = t.path).map Source.tokens := by
  rw [sourceTokens?, optionsFor_of_find? hfind, h.known t (List.mem_of_find?_eq_some hfind)]

/-- Of elements that are counted once there is only one. -/
lemma eq_of_countP_le_one {α : Type} {p : α → Bool} {l : List α} (h : l.countP p ≤ 1) {a b : α}
    (ha : a ∈ l) (hpa : p a = true) (hb : b ∈ l) (hpb : p b = true) : a = b := by
  have hmema : a ∈ l.filter p := List.mem_filter.mpr ⟨ha, hpa⟩
  have hmemb : b ∈ l.filter p := List.mem_filter.mpr ⟨hb, hpb⟩
  rw [List.countP_eq_length_filter] at h
  obtain ⟨c, hc⟩ := List.length_eq_one_iff.mp (Nat.le_antisymm h (List.length_pos_of_mem hmema))
  rw [hc, List.mem_singleton] at hmema hmemb
  rw [hmema, hmemb]

/-- A file that is listed once has no other source. -/
lemma Settled.sourceTokens?_eq (h : Settled w) {path : String}
    (honce : w.targets.countP (fun t => Path.same t.path path) = 1) {s : Source}
    (hs : s ∈ w.sources) (hsame : Path.same s.filePath path = true) :
    w.sourceTokens? path = some s.tokens := by
  obtain ⟨t', ht', hpath⟩ := List.mem_map.mp (h.backed.subset (List.mem_map_of_mem hs))
  have hsame' : Path.same t'.path path = true := by rw [hpath, hsame]
  obtain ⟨t, ht, hfind, hcomponents⟩ := h.exists_target (isTokenFile_of_mem ht' hsame')
  have htt' : t' = t :=
    eq_of_countP_le_one honce.le ht' hsame' ht (decide_eq_true hcomponents)
  subst htt'
  -- There are no more sources of the file than entries for it.
  have hcount : w.sources.countP (fun s => Path.same s.filePath path) ≤ 1 := by
    have hle := h.backed.countP_le fun q => Path.same q path
    rw [List.countP_map, List.countP_map] at hle
    exact hle.trans honce.le
  rw [sourceTokens?_of_find? h hfind]
  cases hsource : w.sources.find? fun s => s.filePath = t'.path with
  | none => exact absurd hpath.symm (by simpa using List.find?_eq_none.mp hsource s hs)
  | some s' =>
    have hs' : s'.filePath = t'.path := by simpa using List.find?_some hsource
    rw [eq_of_countP_le_one hcount (List.mem_of_find?_eq_some hsource) (by rw [hs', hsame']) hs
      hsame]
    rfl

/-- Paths with the same components are those of one file. -/
lemma find?_target_congr {path path' : String} (h : components path = components path') :
    w.targets.find? (fun t => Path.same t.path path) =
      w.targets.find? fun t => Path.same t.path path' := by
  simp only [Path.same, h]

/-- After a reload the source of a token file is what its file on disk is parsed to. -/
lemma sourceTokens?_reload (h : Settled w) {fs : FileSystem} {path : String}
    (htoken : (w.reload fs).1.isTokenFile path = true) :
    (w.reload fs).1.sourceTokens? path =
      (readTokenFile fs ((w.reload fs).1.optionsFor path).filePath
        ((w.reload fs).1.optionsFor path)).toOption.map TokenFile.tokens := by
  have hsettled := h.reload fs
  obtain ⟨t, ht, hfind, -⟩ := hsettled.exists_target htoken
  obtain ⟨targets, htargets⟩ := Settings.exists_targets h.valid fs w.root
  rw [sourceTokens?_of_find? hsettled hfind, optionsFor_of_find? hfind, hsettled.known t ht,
    sources_reload htargets]
  rw [targets_reload htargets] at hfind
  rw [find?_loaded (Settings.filePath_of_mem_targets htargets) hfind, loadTarget]
  cases readTokenFile fs t.path t.options with
  | error e => rfl
  | ok file => rfl

lemma optionsFor_loadText (w : Workspace) (fs : FileSystem) (path path' text : String) :
    (w.loadText fs path text).1.optionsFor path' = w.optionsFor path' := by
  obtain ⟨-, htargets, hsettings⟩ := loadText_cases w fs path text
  rw [optionsFor, optionsFor, htargets, hsettings]

/-- A text takes the place of the tokens of its own file, if it can be read. -/
lemma sourceTokens?_loadText (h : Settled w) {path path' : String} {t : Target}
    (hfind : w.targets.find? (fun t => Path.same t.path path) = some t)
    (hpath : w.isTokenFile path' = true) (fs : FileSystem) (text : String) :
    (w.loadText fs path' text).1.sourceTokens? path =
      if components path' = components path then
        ((TokenFile.parse text (.ofPath t.path)
          { t.options with definitionUri := fileUri fs path' }).toOption.map TokenFile.tokens).or
            (w.sourceTokens? path)
      else w.sourceTokens? path := by
  obtain ⟨t', ht', hfind', hcomponents'⟩ := h.exists_target hpath
  have ht := List.mem_of_find?_eq_some hfind
  have hsame := List.find?_some hfind
  have hcomponents : components t.path = components path := of_decide_eq_true hsame
  have hoptions := optionsFor_of_find? hfind
  have hoptions' := optionsFor_of_find? hfind'
  rw [sourceTokens?, sourceTokens?, optionsFor_loadText, (loadText_cases w fs path' text).1,
    hoptions, hoptions', h.known t ht, h.known t' ht',
    ← TokenFile.Format.ofPath_congr hcomponents']
  split_ifs with heq
  · -- Both paths lead to the same entry, so the text goes into the source that is asked for.
    rw [find?_target_congr heq, hfind] at hfind'
    cases hfind'
    cases (TokenFile.parse text (.ofPath t.path)
      { t.options with definitionUri := fileUri fs path' }).toOption with
    | none => rfl
    | some file =>
      rw [Option.elim_some, find?_setSource, if_pos rfl]
      rfl
  · -- The text goes into a source with another path.
    have hne : t'.path ≠ t.path := by
      intro hpaths
      rw [hpaths] at hcomponents'
      exact heq (hcomponents'.symm.trans hcomponents)
    cases (TokenFile.parse text (.ofPath t'.path)
      { t'.options with definitionUri := fileUri fs path' }).toOption with
    | none => rfl
    | some file => rw [Option.elim_some, find?_setSource, if_neg hne]

end Workspace

namespace Editor

open Workspace (Settled fileUri loaded? Operation)

/-! ## Where tokens come from -/

/-- What the tokens of a file were read from. -/
inductive Origin where
  | disk (fs : FileSystem)
  | document (fs : FileSystem) (uri : Uri) (text : String)

/-- The tokens of a file that was read from there. -/
def Origin.tokens? (options : TokenFile.Options) : Origin → Option (List Token)
  | .disk fs =>
    (Workspace.readTokenFile fs options.filePath options).toOption.map TokenFile.tokens
  | .document fs uri text =>
    (TokenFile.parse text (.ofPath options.filePath)
      { options with definitionUri := (uri.filePath?.map (fileUri fs)).getD "" }).toOption.map
        TokenFile.tokens

/-- Whether a document is one of the file, with a text that can be read. -/
def isTextOf (path : String) (uri : Uri) (text : String) : Bool :=
  uri.filePath?.any fun p => Path.same p path && (loaded? p text).isSome

/-- What the tokens of a file were read from, after a text of a document. -/
def textOrigin (path : String) (fs : FileSystem) (before : Option Origin) (uri : Uri)
    (text : String) : Option Origin :=
  if isTextOf path uri text then some (.document fs uri text) else before

/-- What the tokens of a file were read from, after an event. -/
def Event.origin (path : String) (fs : FileSystem) (before : Option Origin) :
    Event → Option Origin
  | .start _ _ => before
  | .ready => some (.disk fs)
  | .configured _ => some (.disk fs)
  | .opened uri d => textOrigin path fs before uri d.text
  | .changed uri text _ => textOrigin path fs before uri text
  | .closed _ => before

/-- What the tokens of a file were last read from. -/
def origin? (events : List (FileSystem × Event)) (path : String) : Option Origin :=
  events.foldl (fun before e => e.2.origin path e.1 before) none

lemma origin?_concat (events : List (FileSystem × Event)) (fs : FileSystem) (e : Event)
    (path : String) :
    origin? (events ++ [(fs, e)]) path = e.origin path fs (origin? events path) := by
  rw [origin?, List.foldl_append]
  rfl

/-- A text counts for a path if its address names the same file and it parses. -/
lemma isTextOf_of_filePath? {uri : Uri} {path' : String} (h : uri.filePath? = some path')
    (path text : String) :
    isTextOf path uri text = (Path.same path' path && (loaded? path' text).isSome) := by
  rw [isTextOf, h]
  rfl

/-- The token file of an address is the file that it names, if that is a token file. -/
lemma Server.tokenFilePath?_eq_some {s : Server} {uri : Uri} {path : String} :
    s.tokenFilePath? uri = some path ↔
      uri.filePath? = some path ∧ s.workspace.isTokenFile path = true := by
  unfold tokenFilePath?
  cases uri.filePath? with
  | none => simp
  | some path' =>
    simp only [Option.some.injEq]
    split_ifs with htoken
    · constructor
      · rintro ⟨⟩
        exact ⟨rfl, htoken⟩
      · exact fun h => congrArg some h.1
    · constructor
      · intro h
        cases h
      · rintro ⟨rfl, h⟩
        exact absurd h htoken

/-! ## Workspaces of a session -/

lemma settled_text {s : Server} (h : Settled s.workspace) (fs : FileSystem) (uri : Uri)
    (text : String) :
    Settled ((textOperations fs s uri text).foldl Operation.perform s.workspace) := by
  unfold textOperations
  cases hpath : s.tokenFilePath? uri with
  | none => exact h
  | some path => exact h.loadText (Server.tokenFilePath?_eq_some.mp hpath).2 fs text

lemma settled_configure {w : Workspace} (h : Settled w) (fs : FileSystem) (root : Option String)
    (given : Json.Value) :
    Settled { w with root := root, settings := Server.settingsFrom fs root given } :=
  ⟨Server.validate_settingsFrom fs root given, h.known, h.backed⟩

/-- The workspace is settled after every run. -/
lemma settled_performAll (events : List (FileSystem × Event)) :
    Settled (Event.performAll events).1.workspace := by
  refine Event.performAll_invariant (P := fun s _ => Settled s.workspace) ?_ ?_ events
  · refine ⟨rfl, ?_, List.Subperm.refl _⟩
    intro t ht
    cases ht
  · intro fs s sent e h
    rw [workspace_perform]
    cases e with
    | start root given => exact settled_configure h fs root given
    | ready => exact h.reload fs
    | configured given => exact (settled_configure h fs s.workspace.root given).reload fs
    | opened uri d => exact settled_text h fs uri d.text
    | changed uri text version => exact settled_text h fs uri text
    | closed uri => exact h

/-- The tokens of each token file are those of its origin. -/
def Sourced (w : Workspace) (origins : String → Option Origin) : Prop :=
  ∀ path, w.isTokenFile path = true →
    ∃ o, origins path = some o ∧ w.sourceTokens? path = o.tokens? (w.optionsFor path)

/-- New settings are not in use before the next reload. -/
lemma sourced_configure {w : Workspace} {origins : String → Option Origin} (hw : Settled w)
    (h : Sourced w origins) (fs : FileSystem) (root : Option String) (given : Json.Value) :
    Sourced { w with root := root, settings := Server.settingsFrom fs root given } origins := by
  intro path htoken
  obtain ⟨o, ho, htokens⟩ := h path htoken
  obtain ⟨t, -, hfind, -⟩ := hw.exists_target htoken
  have hoptions : Workspace.optionsFor
      { w with root := root, settings := Server.settingsFrom fs root given } path =
        w.optionsFor path := by
    rw [Workspace.optionsFor_of_find? hfind]
    exact Workspace.optionsFor_of_find? hfind
  refine ⟨o, ho, ?_⟩
  rw [Workspace.sourceTokens?, hoptions]
  exact htokens

/-- After a reload every token file has the disk as its origin. -/
lemma sourced_reload {w : Workspace} (h : Settled w) (fs : FileSystem) :
    Sourced (w.reload fs).1 fun _ => some (.disk fs) :=
  fun _ htoken => ⟨_, rfl, Workspace.sourceTokens?_reload h htoken⟩

/-- A document of a token file is known as one. -/
lemma isTextOf_eq_false {s : Server} (hw : Settled s.workspace) {path : String} {uri : Uri}
    (htoken : s.workspace.isTokenFile path = true) (hpath : s.tokenFilePath? uri = none)
    (text : String) : isTextOf path uri text = false := by
  cases hfile : uri.filePath? with
  | none =>
    rw [isTextOf, hfile]
    rfl
  | some path' =>
    rw [isTextOf_of_filePath? hfile, Bool.and_eq_false_iff]
    refine .inl (Bool.eq_false_iff.mpr fun hsame => ?_)
    obtain ⟨t, -, hfind, -⟩ := hw.exists_target htoken
    rw [← Workspace.find?_target_congr (of_decide_eq_true hsame)] at hfind
    have hsome := Server.tokenFilePath?_eq_some.mpr
      ⟨hfile, Workspace.isTokenFile_of_find? hfind⟩
    rw [hpath] at hsome
    cases hsome

/-- Loading the text of a document keeps the tokens of each token file those of its origin. -/
lemma sourced_loadText {w : Workspace} {origins : String → Option Origin} (hw : Settled w)
    (h : Sourced w origins) {uri : Uri} {path' : String} (hfile : uri.filePath? = some path')
    (htoken' : w.isTokenFile path' = true) (fs : FileSystem) (text : String) :
    Sourced (w.loadText fs path' text).1
      fun path => textOrigin path fs (origins path) uri text := by
  intro path htoken
  obtain ⟨t, ht, hfind, hcomponents⟩ := (hw.loadText htoken' fs text).exists_target htoken
  rw [(Workspace.loadText_cases ..).2.1] at ht hfind
  obtain ⟨o, ho, htokens⟩ := h path (Workspace.isTokenFile_of_find? hfind)
  rw [Workspace.optionsFor_of_find? hfind] at htokens
  rw [Workspace.sourceTokens?_loadText hw hfind htoken', Workspace.optionsFor_loadText,
    Workspace.optionsFor_of_find? hfind]
  simp only [textOrigin, isTextOf_of_filePath? hfile, Path.same]
  by_cases hsame : Path.components path' = Path.components path
  · have hformat : TokenFile.Format.ofPath t.path = .ofPath path' :=
      TokenFile.Format.ofPath_congr (hcomponents.trans hsame.symm)
    cases hparse : TokenFile.parse text (.ofPath t.path)
      { t.options with definitionUri := fileUri fs path' } with
    | error e =>
      -- The text cannot be read, and what was read before stays.
      have hloaded : loaded? path' text = none := by
        rw [Option.eq_none_iff_forall_ne_some]
        intro l hl
        obtain ⟨-, file, hfile'⟩ :=
          Workspace.loaded?_eq_some hl { t.options with definitionUri := fileUri fs path' }
        rw [← hformat, hparse] at hfile'
        cases hfile'
      simp [hsame, hloaded, Except.toOption, ho, htokens]
    | ok file =>
      have hloaded := Workspace.loaded?_of_parse (hformat ▸ hparse)
      have hknown : TokenFile.Format.ofPath t.options.filePath = .ofPath t.path := by
        rw [hw.known t ht]
      simp [hsame, hloaded, Origin.tokens?, hfile, hknown, hparse, Except.toOption]
  · simp [hsame, ho, htokens]

/-- So does taking a text in, whether or not it is that of a token file. -/
lemma sourced_text {s : Server} {origins : String → Option Origin} (hw : Settled s.workspace)
    (h : Sourced s.workspace origins) (fs : FileSystem) (uri : Uri) (text : String) :
    Sourced ((textOperations fs s uri text).foldl Operation.perform s.workspace)
      fun path => textOrigin path fs (origins path) uri text := by
  unfold textOperations
  cases hpath : s.tokenFilePath? uri with
  | none =>
    intro path htoken
    have hother := isTextOf_eq_false hw htoken hpath text
    simp only [textOrigin, hother]
    exact h path htoken
  | some path' =>
    obtain ⟨hfile, htoken'⟩ := Server.tokenFilePath?_eq_some.mp hpath
    exact sourced_loadText hw h hfile htoken' fs text

/-- The tokens of a token file are those that it was last read with. -/
lemma sourced_performAll (events : List (FileSystem × Event)) :
    Sourced (Event.performAll events).1.workspace (origin? events) := by
  induction events using List.reverseRecOn with
  | nil =>
    intro path htoken
    cases htoken
  | append_singleton events e ih =>
    have hw := settled_performAll events
    have horigin : origin? (events ++ [e]) =
        fun path => e.2.origin path e.1 (origin? events path) :=
      funext fun path => origin?_concat events e.1 e.2 path
    rw [horigin, Event.performAll_concat events e.1 e.2, workspace_perform]
    obtain ⟨fs, e⟩ := e
    cases e with
    | start root given => exact sourced_configure hw ih fs root given
    | ready => exact sourced_reload hw fs
    | configured given => exact sourced_reload (settled_configure hw fs _ given) fs
    | opened uri d => exact sourced_text hw ih fs uri d.text
    | changed uri text version => exact sourced_text hw ih fs uri text
    | closed uri => exact ih

/-! ## Texts of open documents -/

/-- A document that is the origin of its file after a text of it is so with that text. -/
lemma eq_of_textOrigin {path : String} {fs fs' : FileSystem} {before : Option Origin} {uri : Uri}
    {text text' : String} (hpath : uri.filePath? = some path)
    (hloaded : (loaded? path text').isSome = true)
    (h : textOrigin path fs' before uri text' = some (.document fs uri text)) : text' = text := by
  rw [textOrigin, isTextOf_of_filePath? hpath, hloaded] at h
  simp only [Path.same, decide_true, Bool.and_self, if_true] at h
  cases h
  rfl

/-- A document that is the origin after a text of another one was the origin before. -/
lemma before_of_textOrigin {path : String} {fs fs' : FileSystem} {before : Option Origin}
    {uri u : Uri} {text text' : String} (hother : u ≠ uri)
    (h : textOrigin path fs' before u text' = some (.document fs uri text)) :
    before = some (.document fs uri text) := by
  unfold textOrigin at h
  split_ifs at h
  · cases h
    exact absurd rfl hother
  · exact h

/-- If a file was last read from a document, then from its present text, unless that cannot be
read. -/
lemma text_of_origin {path : String} {uri : Uri} (hpath : uri.filePath? = some path)
    (events : List (FileSystem × Event)) {fs : FileSystem} {text : String} {d : Document}
    (horigin : origin? events path = some (.document fs uri text))
    (hopen : editorDocument? events uri = some d)
    (hloaded : (loaded? path d.text).isSome = true) : d.text = text := by
  induction events using List.reverseRecOn generalizing d with
  | nil => cases hopen
  | append_singleton events e ih =>
    obtain ⟨fs', e⟩ := e
    rw [origin?_concat] at horigin
    rw [editorDocument?_concat] at hopen
    cases e with
    | start root given => exact ih horigin hopen hloaded
    | ready => cases horigin
    | configured given => cases horigin
    | opened u d' =>
      simp only [Event.document] at hopen
      split_ifs at hopen with hu
      · cases hopen
        subst hu
        exact eq_of_textOrigin hpath hloaded horigin
      · exact ih (before_of_textOrigin hu horigin) hopen hloaded
    | changed u text' version =>
      simp only [Event.document] at hopen
      split_ifs at hopen with hu
      · obtain ⟨d', -, rfl⟩ := Option.map_eq_some_iff.mp hopen
        subst hu
        exact eq_of_textOrigin hpath hloaded horigin
      · exact ih (before_of_textOrigin hu horigin) hopen hloaded
    | closed u =>
      simp only [Event.document] at hopen
      split_ifs at hopen with hu
      exact ih horigin hopen hloaded

/-- After each message, whatever the messages and the files: if the text of an open token file can
be read, then the tokens of the file are those that it was last read with, from a document or from
disk. If that was this document, they are those of its present text. A file that the settings list
once has no other tokens. -/
theorem open_text_until_reload (incoming : List Incoming) (uri : Uri) (d : Document)
    (path : String) (file : TokenFile)
    (hopen : (exchange incoming).server.documents.get? uri = some d)
    (htoken : (exchange incoming).server.tokenFilePath? uri = some path)
    (hparse : TokenFile.parse d.text (.ofPath path)
      ((exchange incoming).workspace.optionsFor path) = .ok file) :
    ∃ o, origin? (exchange incoming).events path = some o ∧
      (exchange incoming).workspace.sourceTokens? path =
        o.tokens? ((exchange incoming).workspace.optionsFor path) ∧
      (∀ fs text, o = .document fs uri text →
        (exchange incoming).workspace.sourceTokens? path =
          some (file.tokens.map (Token.withUri (fileUri fs path)))) ∧
      ((exchange incoming).workspace.targets.countP (fun t => Path.same t.path path) = 1 →
        ∀ s ∈ (exchange incoming).workspace.sources, Path.same s.filePath path = true →
          (exchange incoming).workspace.sourceTokens? path = some s.tokens) := by
  obtain ⟨hpath, hfile⟩ := Server.tokenFilePath?_eq_some.mp htoken
  have hserver := congrArg Prod.fst (exchange_eq incoming)
  have hsettled : Settled (exchange incoming).workspace := by
    have hevents := settled_performAll (exchange incoming).events
    rwa [← hserver] at hevents
  have hsourced : Sourced (exchange incoming).workspace (origin? (exchange incoming).events) := by
    have hevents := sourced_performAll (exchange incoming).events
    rwa [← hserver] at hevents
  obtain ⟨o, ho, htokens⟩ := hsourced path hfile
  refine ⟨o, ho, htokens, ?_, fun honce s hs hsame => hsettled.sourceTokens?_eq honce hs hsame⟩
  rintro fs text rfl
  -- The file was read from the present text, as this one can be read.
  have htext : d.text = text := by
    refine text_of_origin hpath (exchange incoming).events ho ?_ ?_
    · rw [← documents_performAll, ← hserver]
      exact hopen
    · rw [Workspace.loaded?_of_parse hparse]
      rfl
  have hformat : TokenFile.Format.ofPath
      ((exchange incoming).workspace.optionsFor path).filePath = .ofPath path := by
    obtain ⟨t, ht, hfind, hcomponents⟩ := hsettled.exists_target hfile
    rw [Workspace.optionsFor_of_find? hfind, hsettled.known t ht]
    exact TokenFile.Format.ofPath_congr hcomponents
  rw [htokens, Origin.tokens?, hpath, ← htext, hformat, TokenFile.parse_withUri, hparse]
  rfl

/-- What a file was read from, if it was a document. -/
def Origin.uri? : Origin → Option Uri
  | .disk _ => none
  | .document _ uri _ => some uri

/-- A text with a token `a`. -/
def valueText (value : String) : String :=
  "\x7b\"a\":\x7b\"$value\":\"" ++ value ++ "\"\x7d\x7d"

/-- On disk the token has the value `0`. -/
def storedFiles : FileSystem :=
  ⟨.directory [("ws", .directory [("tokens.json", .file (valueText "0").toUTF8)])], []⟩

/-- The settings change. -/
def configurationMessage (files : List String) : Message :=
  ⟨none, "workspace/didChangeConfiguration", some (.ofFields
    [("settings", .ofFields [("tokensFiles", .ofStrings files)])])⟩

/-- In an open document the token has the value `1`. -/
def editedRun (files : List String) (earlier later : List Message) : List Incoming :=
  (startMessage files :: earlier ++
    openMessage "file:///ws/tokens.json" (valueText "1") :: later).map fun m => ⟨storedFiles, m⟩

/-- The tokens are those of the text. -/
theorem open_text_until_reload_edited :
    ∃ file, TokenFile.parse (valueText "1") (.ofPath "/ws/tokens.json")
        ((exchange (editedRun ["tokens.json"] [readyMessage] [])).workspace.optionsFor
          "/ws/tokens.json") = .ok file ∧
      file.tokens.map Token.value = ["1"] ∧
      ∃ u, (exchange (editedRun ["tokens.json"] [readyMessage] [])).workspace.sourceTokens?
        "/ws/tokens.json" = some (file.tokens.map (Token.withUri u)) := by
  have hview : (exchange (editedRun ["tokens.json"] [readyMessage] [])).server.documents.get?
        (addressOf "tokens.json") = some ⟨valueText "1", 1, "json"⟩ ∧
      (exchange (editedRun ["tokens.json"] [readyMessage] [])).server.tokenFilePath?
        (addressOf "tokens.json") = some "/ws/tokens.json" ∧
      (TokenFile.parse (valueText "1") (.ofPath "/ws/tokens.json")
        ((exchange (editedRun ["tokens.json"] [readyMessage] [])).workspace.optionsFor
          "/ws/tokens.json")).toOption.any
            (fun file => file.tokens.map Token.value = ["1"]) = true ∧
      (origin? (exchange (editedRun ["tokens.json"] [readyMessage] [])).events
        "/ws/tokens.json").bind Origin.uri? = some (addressOf "tokens.json") := by
    decide +kernel
  generalize editedRun ["tokens.json"] [readyMessage] [] = incoming at *
  obtain ⟨hopen, htoken, hparse, hlast⟩ := hview
  simp only [Option.any_eq_true, Workspace.toOption_eq_some, decide_eq_true_eq] at hparse
  obtain ⟨file, hparse, hvalue⟩ := hparse
  obtain ⟨o, ho, -, htext, -⟩ :=
    open_text_until_reload incoming _ _ _ file hopen htoken hparse
  rw [ho, Option.bind_some] at hlast
  cases o with
  | disk fs => cases hlast
  | document fs uri text =>
    cases hlast
    exact ⟨file, hparse, hvalue, _, htext fs text rfl⟩

/-- The values in the text of an open token file, and those in each of its sources. -/
def Exchange.values? (x : Exchange) (uri : Uri) : Option (List String × List (List String)) := do
  let d ← x.server.documents.get? uri
  let path ← x.server.tokenFilePath? uri
  let file ← (TokenFile.parse d.text (.ofPath path) (x.workspace.optionsFor path)).toOption
  return (file.tokens.map Token.value,
    (x.workspace.sources.filter fun s => Path.same s.filePath path).map fun s =>
      s.tokens.map Token.value)

/-- The text of an open token file can be read, but the workspace has other tokens for the file:
after new settings, after the editor is ready, after the text of another document of the file, and
beside those of the text if the settings list the file twice. -/
theorem reload_overrules_text :
    (exchange (editedRun ["tokens.json"] [readyMessage]
      [configurationMessage ["tokens.json"]])).values? (addressOf "tokens.json") =
        some (["1"], [["0"]]) ∧
    (exchange (editedRun ["tokens.json"] [] [readyMessage])).values? (addressOf "tokens.json") =
      some (["1"], [["0"]]) ∧
    (exchange (editedRun ["tokens.json"] [readyMessage]
      [openMessage "file:///ws/tokens.json#2" (valueText "2")])).values?
        (addressOf "tokens.json") = some (["1"], [["2"]]) ∧
    (exchange (editedRun ["tokens.json", "tokens.json"] [readyMessage] [])).values?
      (addressOf "tokens.json") = some (["1"], [["1"], ["0"]]) := by
  decide +kernel

end Editor

end DesignTokens
