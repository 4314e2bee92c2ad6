import DesignTokens.Proofs.Addresses
import DesignTokens.Proofs.SettingsRoundTrip
import DesignTokens.Proofs.WorkspaceRuns
import Mathlib.Data.List.Perm.Subperm

/-!
# Loading file by file

A workspace loads all its files once and then takes in single files, from disk or as texts. The log
of such a run has each text that could be read as a token file. The workspace then has a source for
each file of the log, with the text that was last loaded from it, in the order in which the files
were first loaded (`Tracks`). A reload of the same texts gives the same sources if the settings list
the files in that order; so it publishes the same tokens, but for the addresses of the files
(`incremental_eq_reload`). In another order it may not (`incremental_ne_reload`).
-/

namespace DesignTokens

open DesignTokens.Path (components)

/-! ## Paths of files -/

/-- Paths to one file have one format. -/
lemma TokenFile.Format.ofPath_congr {path path' : String}
    (h : components path = components path') : ofPath path = ofPath path' := by
  unfold ofPath Path.extension? Path.fileName?
  rw [h]

lemma Path.ne_empty_of_isAbsolute {path : String} (h : isAbsolute path = true) : path ≠ "" := by
  rintro rfl
  cases h

/-- Only nothing in nothing has an empty path. -/
lemma Path.join_eq_empty {base path : String} (h : join base path = "") :
    base = "" ∧ path = "" := by
  unfold join at h
  split_ifs at h with habsolute
  · exact absurd h (ne_empty_of_isAbsolute habsolute)
  · exact String.append_eq_empty_iff.mp h
  · have hslash := (String.append_eq_empty_iff.mp h).1
    exact absurd (String.append_eq_empty_iff.mp hslash).2 (by decide)

namespace Settings

/-- The files that settings list. -/
def files (s : Settings) (root : Option String) : List Target :=
  s.tokenFiles.map (s.target root)

/-- The settings list some files, all different, and none without a path. -/
structure ListsFiles (s : Settings) (root : Option String) : Prop where
  valid : s.validate = .ok ()
  nonempty : s.tokenFiles ≠ []
  nodup : ((s.files root).map fun t => components t.path).Nodup

/-- The files that are listed are those to load. -/
lemma ListsFiles.targets_eq {s : Settings} {root : Option String} (h : s.ListsFiles root)
    (fs : FileSystem) : s.targets fs root = .ok (s.files root) := by
  unfold targets files
  rw [h.valid]
  simp [h.nonempty]

/-- The order of the list does not matter for that. -/
lemma ListsFiles.perm {s : Settings} {root : Option String} (h : s.ListsFiles root)
    {entries : List FileEntry} (hperm : entries.Perm s.tokenFiles) :
    ListsFiles { s with tokenFiles := entries } root := by
  refine ⟨?_, ?_, ?_⟩
  · rw [validate_eq_ok]
    exact fun e he => validate_eq_ok.mp h.valid e (hperm.mem_iff.mp he)
  · intro hnil
    exact h.nonempty (List.nil_perm.mp (hnil ▸ hperm))
  · have hfiles : (files { s with tokenFiles := entries } root).Perm (s.files root) :=
      hperm.map (s.target root)
    exact (hfiles.map _).nodup_iff.mpr h.nodup

lemma filePath_ne_empty {path : String} (h : path ≠ "") (root : Option String) :
    filePath root path ≠ "" := by
  intro hempty
  unfold filePath at hempty
  split at hempty
  · split_ifs at hempty with habsolute
    · exact Path.ne_empty_of_isAbsolute habsolute hempty
    · have hmodules := (Path.join_eq_empty hempty).1
      exact absurd (Path.join_eq_empty hmodules).2 (by decide)
  · exact h (Path.join_eq_empty hempty).2

end Settings

namespace Workspace

/-- Files that are different, each known to its tokens by its path. -/
structure Distinct (targets : List Target) : Prop where
  nodup : (targets.map fun t => components t.path).Nodup
  filePath_eq : ∀ t ∈ targets, t.options.filePath = t.path
  definitionUri_eq : ∀ t ∈ targets, t.options.definitionUri = ""
  path_ne : ∀ t ∈ targets, t.path ≠ ""

variable {targets : List Target}

/-- Of distinct targets one has the file. -/
lemma Distinct.eq (h : Distinct targets) {t t' : Target} (ht : t ∈ targets) (ht' : t' ∈ targets)
    (heq : components t.path = components t'.path) : t = t' :=
  List.inj_on_of_nodup_map h.nodup ht ht' heq

/-- Settings that list every file once give distinct targets. -/
lemma distinct_files {s : Settings} {root : Option String} (h : s.ListsFiles root) :
    Distinct (s.files root) := by
  refine ⟨h.nodup, ?_, ?_, ?_⟩
  · intro t ht
    obtain ⟨e, -, rfl⟩ := List.mem_map.mp ht
    rfl
  · intro t ht
    obtain ⟨e, -, rfl⟩ := List.mem_map.mp ht
    rfl
  · intro t ht
    obtain ⟨e, he, rfl⟩ := List.mem_map.mp ht
    refine Settings.filePath_ne_empty ?_ root
    intro hempty
    have hblank := Settings.validate_eq_ok.mp h.valid e he
    rw [hempty] at hblank
    exact absurd hblank (by decide)

/-! ## The log -/

/-- A text that was loaded. The file is known by the components of its path. -/
structure Loaded where
  file : List Path.Component
  text : String

/-- The entry of a text in the log, if it can be read as a token file. -/
def loaded? (path text : String) : Option Loaded :=
  if (TokenFile.parse text (.ofPath path) {}).toOption.isSome then some ⟨components path, text⟩
  else none

/-- What a pass loads of the files `targets`. -/
def Pass.log (targets : List Target) : Pass → List Loaded
  | .reload fs => targets.filterMap fun t => (fs.readText t.path).toOption.bind (loaded? t.path)
  | .loadFile fs path => ((fs.readText path).toOption.bind (loaded? path)).toList
  | .loadText _ path text => (loaded? path text).toList
  | .resolveAll => []

/-- The text that was last loaded from a file. -/
def lastText? (log : List Loaded) (file : List Path.Component) : Option String :=
  (log.reverse.find? fun l => l.file = file).map Loaded.text

/-- The files in the order in which they were first loaded. -/
def loadOrder (log : List Loaded) : List (List Path.Component) :=
  (log.map Loaded.file).reverse.dedup.reverse

variable {log : List Loaded}

/-- The last text of a file is the one loaded last. -/
lemma lastText?_concat (log : List Loaded) (l : Loaded) (file : List Path.Component) :
    lastText? (log ++ [l]) file = if l.file = file then some l.text else lastText? log file := by
  unfold lastText?
  rw [List.reverse_append, List.reverse_singleton, List.singleton_append, List.find?_cons]
  by_cases h : l.file = file
  · simp [h]
  · simp [h]

/-- The files in the load order are those with a text. -/
lemma mem_loadOrder {file : List Path.Component} :
    file ∈ loadOrder log ↔ (lastText? log file).isSome = true := by
  simp [loadOrder, lastText?, List.find?_isSome]

lemma nodup_loadOrder (log : List Loaded) : (loadOrder log).Nodup :=
  List.nodup_reverse.mpr (List.nodup_dedup _)

/-- A file that is loaded again keeps its place in the order. -/
lemma loadOrder_concat (log : List Loaded) (l : Loaded) :
    loadOrder (log ++ [l]) =
      if l.file ∈ loadOrder log then loadOrder log else loadOrder log ++ [l.file] := by
  have hmem : l.file ∈ loadOrder log ↔ l.file ∈ (log.map Loaded.file).reverse := by
    rw [loadOrder, List.mem_reverse, List.mem_dedup]
  rw [if_congr hmem rfl rfl, loadOrder, List.map_append, List.reverse_append, List.map_singleton,
    List.reverse_singleton, List.singleton_append]
  split_ifs with h
  · rw [List.dedup_cons_of_mem h]
    rfl
  · rw [List.dedup_cons_of_notMem h, List.reverse_cons]
    rfl

/-! ## Reading a file -/

/-- The text read as the file `t` gives the tokens, but for the address of the file. -/
def Gives (t : Target) (text : String) (tokens : List Token) : Prop :=
  ∃ file, TokenFile.parse text (.ofPath t.path) t.options = .ok file ∧
    tokens.map (Token.withUri "") = file.tokens

/-- Whether a text is a token file does not depend on the options. -/
lemma exists_parse_congr {text : String} {format : TokenFile.Format}
    {options : TokenFile.Options} {file : TokenFile}
    (h : TokenFile.parse text format options = .ok file) (options' : TokenFile.Options) :
    ∃ file', TokenFile.parse text format options' = .ok file' := by
  obtain ⟨fields, hread, -⟩ := TokenFile.parse_eq_ok h
  exact ⟨TokenFile.ofDocument (.object fields) text format options', by rw [TokenFile.parse, hread]⟩

/-- A text that parses is loaded for its file. -/
lemma loaded?_of_parse {path text : String} {options : TokenFile.Options} {file : TokenFile}
    (h : TokenFile.parse text (.ofPath path) options = .ok file) :
    loaded? path text = some ⟨components path, text⟩ := by
  obtain ⟨file', hfile'⟩ := exists_parse_congr h {}
  rw [loaded?, hfile']
  rfl

/-- A text that is loaded parses with any options. -/
lemma loaded?_eq_some {path text : String} {l : Loaded} (h : loaded? path text = some l)
    (options : TokenFile.Options) :
    l = ⟨components path, text⟩ ∧
      ∃ file, TokenFile.parse text (.ofPath path) options = .ok file := by
  unfold loaded? at h
  split_ifs at h with hsome
  obtain ⟨file, hfile⟩ := Option.isSome_iff_exists.mp hsome
  exact ⟨(Option.some.inj h).symm, exists_parse_congr (toOption_eq_some.mp hfile) options⟩

/-- A text that is read under another address, and from a path with the same components, gives what
it gives for the file itself. -/
lemma gives_of_parse {t : Target} (huri : t.options.definitionUri = "") {path text u : String}
    (hpath : components t.path = components path) {file : TokenFile}
    (h : TokenFile.parse text (.ofPath path) { t.options with definitionUri := u } = .ok file) :
    Gives t text file.tokens := by
  rw [← TokenFile.Format.ofPath_congr hpath, TokenFile.parse_withUri] at h
  cases hparse : TokenFile.parse text (.ofPath t.path) t.options with
  | error e =>
    rw [hparse] at h
    cases h
  | ok file' =>
    rw [hparse] at h
    cases h
    -- Without an address the tokens stay as they are.
    have hself := TokenFile.parse_withUri "" text (.ofPath t.path) t.options
    have hoptions : { t.options with definitionUri := "" } = t.options := by rw [← huri]
    rw [hoptions, hparse] at hself
    refine ⟨file', hparse, ?_⟩
    rw [List.map_map]
    exact (congrArg TokenFile.tokens (Except.ok.inj hself)).symm

lemma completeOptions_eq (hd : Distinct targets) {t : Target} (ht : t ∈ targets) (fs : FileSystem)
    (path : String) :
    completeOptions fs path t.options = { t.options with definitionUri := fileUri fs path } := by
  have hpath : t.options.filePath.isEmpty = false := by
    rw [hd.filePath_eq t ht, String.isEmpty_eq_false_iff]
    exact hd.path_ne t ht
  have huri : t.options.definitionUri.isEmpty = true := by
    rw [hd.definitionUri_eq t ht]
    rfl
  unfold completeOptions
  rw [hpath, huri]
  rfl

/-- A file is read exactly if it has an entry for the log. -/
lemma readTokenFile_cases (hd : Distinct targets) {t : Target} (ht : t ∈ targets) {path : String}
    (hpath : components t.path = components path) (fs : FileSystem) :
    (∃ e, readTokenFile fs path t.options = .error e ∧
      (fs.readText path).toOption.bind (loaded? path) = none) ∨
    ∃ text file, readTokenFile fs path t.options = .ok file ∧
      (fs.readText path).toOption.bind (loaded? path) = some ⟨components t.path, text⟩ ∧
      Gives t text file.tokens := by
  cases hread : readTokenFile fs path t.options with
  | error e =>
    refine .inl ⟨e, rfl, Option.eq_none_iff_forall_ne_some.mpr fun l hl => ?_⟩
    obtain ⟨text, htext, hloaded⟩ := Option.bind_eq_some_iff.mp hl
    obtain ⟨-, file, hparse⟩ := loaded?_eq_some hloaded (completeOptions fs path t.options)
    rw [readTokenFile_eq_ok.mpr ⟨text, toOption_eq_some.mp htext, hparse⟩] at hread
    cases hread
  | ok file =>
    obtain ⟨text, htext, hparse⟩ := readTokenFile_eq_ok.mp hread
    refine .inr ⟨text, file, rfl, ?_, ?_⟩
    · rw [toOption_eq_some.mpr htext, Option.bind_some, loaded?_of_parse hparse, hpath]
    · rw [completeOptions_eq hd ht] at hparse
      exact gives_of_parse (hd.definitionUri_eq t ht) hpath hparse

/-! ## Sources that follow the log -/

/-- A source shows what was last loaded from a file. -/
def Shows (targets : List Target) (log : List Loaded) (file : List Path.Component)
    (s : Source) : Prop :=
  ∃ t ∈ targets, components t.path = file ∧ s.filePath = t.path ∧
    ∃ text, lastText? log file = some text ∧ Gives t text s.tokens

/-- The workspace has settled on `targets`, and shows what the log says in the order of the log. -/
structure Tracks (targets : List Target) (log : List Loaded) (w : Workspace) : Prop where
  targets_eq : w.targets = targets
  shows : List.Forall₂ (Shows targets log) (loadOrder log) w.sources

/-- The one file that a pass loads is one of `targets`. -/
def Pass.Loads (targets : List Target) : Pass → Prop
  | .loadFile _ path => ∃ t ∈ targets, Path.same t.path path = true
  | .loadText _ path _ => ∃ t ∈ targets, Path.same t.path path = true
  | _ => False

/-- A path to the file of a target has its options. -/
lemma optionsFor_eq (hd : (targets.map fun t => components t.path).Nodup) {w : Workspace}
    (hw : w.targets = targets) {t : Target} (ht : t ∈ targets) {path : String}
    (hpath : components t.path = components path) : w.optionsFor path = t.options := by
  have hfind : w.targets.find? (fun t' => Path.same t'.path path) = some t := by
    have hsame : (fun t' : Target => Path.same t'.path path) =
        fun t' => decide (components t'.path = components t.path) := by
      funext t'
      rw [hpath]
      rfl
    rw [hsame, hw]
    exact find?_of_nodup_map hd ht
  rw [optionsFor, hfind]

/-- What the one file is read as, and its entry for the log. -/
lemma Pass.file?_cases (hd : Distinct targets) {w : Workspace} (hw : w.targets = targets) {p : Pass}
    (hp : p.Loads targets) :
    ∃ t ∈ targets,
      (∃ e, p.file? w = some (t.path, .error e) ∧ p.log targets = []) ∨
      ∃ text file, p.file? w = some (t.path, .ok file) ∧
        p.log targets = [⟨components t.path, text⟩] ∧ Gives t text file.tokens := by
  cases p with
  | reload fs => cases hp
  | resolveAll => cases hp
  | loadFile fs path =>
    obtain ⟨t, ht, hsame⟩ := hp
    have hpath : components t.path = components path := of_decide_eq_true hsame
    have hfile : file? w (.loadFile fs path) = some (t.path, readTokenFile fs path t.options) := by
      rw [file?, optionsFor_eq hd.nodup hw ht hpath, hd.filePath_eq t ht]
    refine ⟨t, ht, ?_⟩
    rw [hfile, log]
    rcases readTokenFile_cases hd ht hpath fs with ⟨e, hread, hnone⟩ |
      ⟨text, file, hread, hsome, hgives⟩
    · exact .inl ⟨e, by rw [hread], by rw [hnone]; rfl⟩
    · exact .inr ⟨text, file, by rw [hread], by rw [hsome]; rfl, hgives⟩
  | loadText fs path text =>
    obtain ⟨t, ht, hsame⟩ := hp
    have hpath : components t.path = components path := of_decide_eq_true hsame
    have hfile : file? w (.loadText fs path text) = some (t.path, TokenFile.parse text
        (.ofPath path) { t.options with definitionUri := fileUri fs path }) := by
      rw [file?, optionsFor_eq hd.nodup hw ht hpath, hd.filePath_eq t ht]
    refine ⟨t, ht, ?_⟩
    rw [hfile, log]
    cases hparse : TokenFile.parse text (.ofPath path)
        { t.options with definitionUri := fileUri fs path } with
    | error e =>
      refine .inl ⟨e, rfl, ?_⟩
      cases hloaded : loaded? path text with
      | none => rfl
      | some l =>
        obtain ⟨-, file, hok⟩ := loaded?_eq_some hloaded
          { t.options with definitionUri := fileUri fs path }
        rw [hok] at hparse
        cases hparse
    | ok file =>
      refine .inr ⟨text, file, rfl, ?_, gives_of_parse (hd.definitionUri_eq t ht) hpath hparse⟩
      rw [loaded?_of_parse hparse, hpath]
      rfl

lemma Shows.components_filePath {file : List Path.Component} {s : Source}
    (h : Shows targets log file s) : components s.filePath = file := by
  obtain ⟨t, -, hfile, hpath, -⟩ := h
  rw [hpath, hfile]

/-- Another file that is loaded changes nothing. -/
lemma Shows.concat {file : List Path.Component} {s : Source} (h : Shows targets log file s)
    {l : Loaded} (hl : l.file ≠ file) : Shows targets (log ++ [l]) file s := by
  obtain ⟨t, ht, hfile, hpath, text, htext, hgives⟩ := h
  refine ⟨t, ht, hfile, hpath, text, ?_, hgives⟩
  rw [lastText?_concat, if_neg hl]
  exact htext

/-- A text of another file changes none of these sources. -/
lemma forall₂_shows_concat {files : List (List Path.Component)} {sources : List Source}
    (h : List.Forall₂ (Shows targets log) files sources) {l : Loaded} (hl : l.file ∉ files) :
    List.Forall₂ (Shows targets (log ++ [l])) files sources := by
  induction h with
  | nil => exact .nil
  | cons hshows _ ih =>
    rw [List.mem_cons, not_or] at hl
    exact .cons (hshows.concat hl.1) (ih hl.2)

/-- The source of a file that is loaded takes the place of the one before, or the last place. -/
lemma forall₂_shows_setSource (hd : Distinct targets) {l : Loaded} {s : Source}
    (hs : Shows targets (log ++ [l]) l.file s) {files : List (List Path.Component)}
    {sources : List Source} (h : List.Forall₂ (Shows targets log) files sources)
    (hnodup : files.Nodup) :
    List.Forall₂ (Shows targets (log ++ [l]))
      (if l.file ∈ files then files else files ++ [l.file]) (setSource s sources) := by
  induction h with
  | nil => exact .cons hs .nil
  | @cons file source files sources hshows htail ih =>
    obtain ⟨hfile, hfiles⟩ := List.nodup_cons.mp hnodup
    rw [setSource]
    by_cases hpath : source.filePath = s.filePath
    · have heq : file = l.file := by
        rw [← hshows.components_filePath, ← hs.components_filePath, hpath]
      subst heq
      rw [if_pos hpath, if_pos (List.mem_cons_self ..)]
      exact .cons hs (forall₂_shows_concat htail hfile)
    · have hne : l.file ≠ file := by
        rintro rfl
        obtain ⟨t, ht, hfile, hsource, -⟩ := hshows
        obtain ⟨t', ht', hfile', hs', -⟩ := hs
        rw [hsource, hs', hd.eq ht ht' (hfile.trans hfile'.symm)] at hpath
        exact hpath rfl
      rw [if_neg hpath]
      have hmem : l.file ∈ file :: files ↔ l.file ∈ files := by
        rw [List.mem_cons, or_iff_right hne]
      have hlist : (if l.file ∈ file :: files then file :: files else file :: files ++ [l.file]) =
          file :: if l.file ∈ files then files else files ++ [l.file] := by
        rw [if_congr hmem rfl rfl]
        split_ifs
        · rfl
        · rfl
      rw [hlist]
      exact .cons (hshows.concat hne) (ih hfiles)

/-- A file that is loaded is entered in the log, and is shown. -/
lemma Tracks.read (hd : Distinct targets) {w : Workspace} (h : Tracks targets log w) {p : Pass}
    (hp : p.Loads targets) :
    ∃ w', p.read w = .ok w' ∧ Tracks targets (log ++ p.log targets) w' := by
  obtain ⟨t, ht, hcases⟩ := Pass.file?_cases hd h.targets_eq hp
  rcases hcases with ⟨e, hfile, hlog⟩ | ⟨text, file, hfile, hlog, hgives⟩
  · refine ⟨_, Pass.read_of_file? hfile, ?_⟩
    rw [hlog, List.append_nil]
    exact ⟨h.targets_eq, h.shows⟩
  · refine ⟨_, Pass.read_of_file? hfile, h.targets_eq, ?_⟩
    have hs : Shows targets (log ++ [⟨components t.path, text⟩]) (components t.path)
        ⟨t.path, file.tokens⟩ := by
      refine ⟨t, ht, rfl, rfl, text, ?_, hgives⟩
      rw [lastText?_concat, if_pos rfl]
    rw [hlog, loadOrder_concat]
    exact forall₂_shows_setSource hd hs h.shows (nodup_loadOrder log)

lemma Tracks.resolveAll {w : Workspace} (h : Tracks targets log w) :
    Tracks targets log w.resolveAll.1 := by
  rw [resolveAll_eq]
  exact ⟨h.targets_eq, h.shows⟩

/-- The workspace after passes. -/
def runAll (w : Workspace) (passes : List Pass) : Workspace :=
  passes.foldl (fun w p => (p.run w).1) w

/-- Loads keep the sources in step with the log. -/
lemma Tracks.runAll (hd : Distinct targets) {w : Workspace} (h : Tracks targets log w)
    {loads : List Pass} (hloads : ∀ p ∈ loads, p.Loads targets) :
    Tracks targets (log ++ loads.flatMap (Pass.log targets)) (w.runAll loads) := by
  induction loads generalizing log w with
  | nil =>
    rw [List.flatMap_nil, List.append_nil]
    exact h
  | cons p loads ih =>
    obtain ⟨w', hread, htracks⟩ := h.read hd (hloads p (List.mem_cons_self ..))
    have hrun : (p.run w).1 = w'.resolveAll.1 := (Pass.run_of_read hread).1
    rw [List.flatMap_cons, ← List.append_assoc, Workspace.runAll, List.foldl_cons, hrun]
    exact ih htracks.resolveAll fun q hq => hloads q (List.mem_cons_of_mem _ hq)

/-! ## Reloading -/

lemma filter_mem_of_sublist {α : Type} {l l' : List α} [DecidablePred fun a => a ∈ l]
    (h : l.Sublist l') (hnodup : l'.Nodup) : l'.filter (fun a => a ∈ l) = l := by
  have hself : l.filter (fun a => a ∈ l) = l := List.filter_eq_self.mpr (by simp)
  have hsublist : l.Sublist (l'.filter fun a => a ∈ l) := by
    have hfilter := h.filter fun a => a ∈ l
    rwa [hself] at hfilter
  have hsubset : l'.filter (fun a => a ∈ l) ⊆ l := by
    intro a ha
    simpa using (List.mem_filter.mp ha).2
  have hlength := (List.subperm_of_subset (hnodup.filter _) hsubset).length_le
  exact (hsublist.eq_of_length_le hlength).symm

/-- After a reload there is a source for each target that could be read. -/
lemma sources_withFiles (w : Workspace) (fs : FileSystem) (targets : List Target) :
    (w.withFiles fs targets).sources = targets.filterMap fun t => (loadTarget fs t).toOption :=
  List.filterMap_map

/-- A file system and a list of files as the log leaves them: the files that were loaded stand in
the order in which they were first loaded, and each can be read as the text that was last loaded
from it, or not at all. -/
structure Restores (log : List Loaded) (disk : FileSystem) (targets : List Target) : Prop where
  order : (loadOrder log).Sublist (targets.map fun t => components t.path)
  text : ∀ t ∈ targets,
    ((disk.readText t.path).toOption.bind (loaded? t.path)).map Loaded.text =
      lastText? log (components t.path)

/-- The sources of a reload, file by file. -/
lemma forall₂_shows_withFiles (hd : Distinct targets) {disk : FileSystem} (w : Workspace)
    {files : List Target} (hfiles : ∀ t ∈ files, t ∈ targets)
    (htext : ∀ t ∈ files, ((disk.readText t.path).toOption.bind (loaded? t.path)).map Loaded.text =
      lastText? log (components t.path)) :
    List.Forall₂ (Shows targets log)
      ((files.map fun t => components t.path).filter fun file => file ∈ loadOrder log)
      (w.withFiles disk files).sources := by
  rw [sources_withFiles]
  induction files with
  | nil => exact .nil
  | cons t files ih =>
    have ht := hfiles t (List.mem_cons_self ..)
    have hlast := htext t (List.mem_cons_self ..)
    have hrest := ih (fun t' ht' => hfiles t' (List.mem_cons_of_mem _ ht'))
      fun t' ht' => htext t' (List.mem_cons_of_mem _ ht')
    rw [List.map_cons, List.filter_cons, List.filterMap_cons, loadTarget]
    rcases readTokenFile_cases hd ht rfl disk with ⟨e, hread, hnone⟩ |
      ⟨text, file, hread, hsome, hgives⟩
    · rw [hnone, Option.map_none] at hlast
      have hmem : components t.path ∉ loadOrder log := by
        rw [mem_loadOrder, ← hlast]
        simp
      rw [hread, if_neg (by simpa using hmem)]
      exact hrest
    · rw [hsome, Option.map_some] at hlast
      have hmem : components t.path ∈ loadOrder log := by
        rw [mem_loadOrder, ← hlast]
        rfl
      rw [hread, if_pos (by simpa using hmem)]
      exact .cons ⟨t, ht, rfl, hd.filePath_eq t ht, text, hlast.symm, hgives⟩ hrest

/-- A reload from a disk with the logged texts gives the sources of the log. -/
lemma Restores.shows (hd : Distinct targets) {disk : FileSystem} {files : List Target}
    (hperm : files.Perm targets) (h : Restores log disk files) (w : Workspace) :
    List.Forall₂ (Shows targets log) (loadOrder log) (w.withFiles disk files).sources := by
  have hnodup : (files.map fun t => components t.path).Nodup :=
    (hperm.map _).nodup_iff.mpr hd.nodup
  have hshows := forall₂_shows_withFiles hd w (fun t ht => hperm.mem_iff.mp ht) h.text
  rwa [filter_mem_of_sublist h.order hnodup] at hshows

lemma file_of_read {fs : FileSystem} {path : String} {l : Loaded}
    (h : (fs.readText path).toOption.bind (loaded? path) = some l) : l.file = components path := by
  obtain ⟨text, -, hloaded⟩ := Option.bind_eq_some_iff.mp h
  rw [(loaded?_eq_some hloaded {}).1]

/-- A reload enters its files in their order. -/
lemma sublist_log_reload (targets : List Target) (fs : FileSystem) :
    ((Pass.log targets (.reload fs)).map Loaded.file).Sublist
      (targets.map fun t => components t.path) := by
  simp only [Pass.log]
  induction targets with
  | nil => exact .slnil
  | cons t targets ih =>
    rw [List.filterMap_cons, List.map_cons]
    split
    · exact .cons _ ih
    · next l hl =>
      rw [List.map_cons, file_of_read hl]
      exact .cons_cons _ ih

/-- After a reload the files are as its log says. -/
lemma restores_reload (hd : Distinct targets) (fs : FileSystem) :
    Restores (Pass.log targets (.reload fs)) fs targets := by
  have hsublist := sublist_log_reload targets fs
  have hnodup : ((Pass.log targets (.reload fs)).map Loaded.file).reverse.Nodup :=
    List.nodup_reverse.mpr (hd.nodup.sublist hsublist)
  refine ⟨?_, fun t ht => ?_⟩
  · rw [loadOrder, List.dedup_eq_self.mpr hnodup, List.reverse_reverse]
    exact hsublist
  · cases hread : (fs.readText t.path).toOption.bind (loaded? t.path) with
    | some l =>
      have hmem : l ∈ (Pass.log targets (.reload fs)).reverse :=
        List.mem_reverse.mpr (List.mem_filterMap.mpr ⟨t, ht, hread⟩)
      rw [← List.map_reverse] at hnodup
      rw [lastText?, ← file_of_read hread, find?_of_nodup_map hnodup hmem]
    | none =>
      -- An entry for the file would be that of the file itself.
      have hnone : ∀ l ∈ (Pass.log targets (.reload fs)).reverse, l.file ≠ components t.path := by
        intro l hl heq
        obtain ⟨t', ht', hread'⟩ := List.mem_filterMap.mp (List.mem_reverse.mp hl)
        rw [hd.eq ht' ht ((file_of_read hread').symm.trans heq), hread] at hread'
        cases hread'
      rw [lastText?, List.find?_eq_none.mpr (by simpa using hnone)]

/-- A reload starts a log of what it read. -/
lemma tracks_reload (hd : Distinct targets) (fs : FileSystem) (w : Workspace) :
    Tracks targets (Pass.log targets (.reload fs)) (w.withFiles fs targets) :=
  ⟨rfl, (restores_reload hd fs).shows hd (.refl _) w⟩

/-! ## What is published -/

/-- What a log says is all that counts for a batch. -/
lemma batch_congr_of_shows (hd : Distinct targets) {files : List (List Path.Component)}
    {sources sources' : List Source} (h : List.Forall₂ (Shows targets log) files sources)
    (h' : List.Forall₂ (Shows targets log) files sources') :
    (sources.flatMap Source.tokens).map (Token.withUri "") =
      (sources'.flatMap Source.tokens).map (Token.withUri "") := by
  induction h generalizing sources' with
  | nil =>
    cases h'
    rfl
  | cons hshows _ ih =>
    obtain _ | ⟨hshows', htail'⟩ := h'
    obtain ⟨t, ht, hfile, -, text, htext, file, hparse, htokens⟩ := hshows
    obtain ⟨t', ht', hfile', -, text', htext', file', hparse', htokens'⟩ := hshows'
    -- Both show the same text of the same file.
    cases hd.eq ht ht' (hfile.trans hfile'.symm)
    cases Option.some.inj (htext.symm.trans htext')
    cases Except.ok.inj (hparse.symm.trans hparse')
    rw [List.flatMap_cons, List.flatMap_cons, List.map_append, List.map_append, htokens, htokens',
      ih htail']

/-- Batches that differ in addresses only are published alike. -/
lemma published_congr {batch batch' : List Token}
    (h : batch.map (Token.withUri "") = batch'.map (Token.withUri "")) {n : Nat}
    (hn : batchResult batch = .ok n) (r r' : Registry) :
    batchResult batch' = .ok n ∧
      (published r' batch').toList.map (Token.withUri "") =
        (published r batch).toList.map (Token.withUri "") := by
  have hbatch := resolveBatch_withUri "" batch
  rw [h, resolveBatch_withUri] at hbatch
  unfold batchResult published at *
  cases hok : resolveBatch batch with
  | error e =>
    rw [hok] at hn
    cases hn
  | ok resolved =>
    cases hok' : resolveBatch batch' with
    | error e =>
      rw [hok, hok'] at hbatch
      cases hbatch
    | ok resolved' =>
      rw [hok, hok'] at hbatch
      have htokens := congrArg Prod.fst (Except.ok.inj hbatch)
      have hlength : resolved'.1.length = resolved.1.length := by
        have := congrArg List.length htokens
        rwa [List.length_map, List.length_map] at this
      rw [hok] at hn
      refine ⟨?_, ?_⟩
      · rw [← hn]
        exact congrArg Except.ok hlength
      · rw [← Registry.toList_ofList_withUri, ← Registry.toList_ofList_withUri]
        exact congrArg (fun tokens => (Registry.ofList tokens).toList) htokens

/-- The texts of a log are token files, so on disk they can be loaded. -/
lemma Tracks.restores (hd : Distinct targets) {w : Workspace} (h : Tracks targets log w)
    {disk : FileSystem} {files : List Target} (hfiles : ∀ t ∈ files, t ∈ targets)
    (horder : (loadOrder log).Sublist (files.map fun t => components t.path)) (hdisk : ∀ t ∈ files,
      (disk.readText t.path).toOption = lastText? log (components t.path)) :
    Restores log disk files := by
  refine ⟨horder, fun t ht => ?_⟩
  rw [hdisk t ht]
  cases hlast : lastText? log (components t.path) with
  | none => rfl
  | some text =>
    have hmem : components t.path ∈ loadOrder log := by
      rw [mem_loadOrder, hlast]
      rfl
    obtain ⟨i, hi, hget⟩ := List.getElem_of_mem hmem
    obtain ⟨hlength, hshows⟩ := List.forall₂_iff_get.mp h.shows
    obtain ⟨t', ht', hfile, -, text', htext', file, hparse, -⟩ := hshows i hi (hlength ▸ hi)
    rw [List.get_eq_getElem, hget] at hfile htext'
    cases hd.eq ht' (hfiles t ht) hfile
    cases Option.some.inj (htext'.symm.trans hlast)
    rw [Option.bind_some, loaded?_of_parse hparse]
    rfl

/-- Settings that list files are reloaded without a search for more. -/
lemma reload_eq {w : Workspace} (h : w.settings.ListsFiles w.root) (fs : FileSystem) :
    w.reload fs = (w.withFiles fs (w.settings.files w.root)).resolveAll := by
  rw [reload, h.targets_eq fs]

/-- A reload and loads after it keep to their log. -/
lemma tracks_loads {start : Workspace} (h : start.settings.ListsFiles start.root)
    (fs : FileSystem) {loads : List Pass}
    (hloads : ∀ p ∈ loads, p.Loads (start.settings.files start.root)) :
    Tracks (start.settings.files start.root)
      ((.reload fs :: loads).flatMap (Pass.log (start.settings.files start.root)))
      (start.runAll (.reload fs :: loads)) := by
  have hd := distinct_files h
  rw [List.flatMap_cons, runAll, List.foldl_cons, Pass.run, reload_eq h]
  exact (tracks_reload hd fs start).resolveAll.runAll hd hloads

/-- All files that the settings list are loaded, and then single ones of them. If the last of these
passes answers, then it publishes, but for the addresses of the files, what any workspace publishes
that reloads the texts that were last loaded, under settings that list the same files and have those
that were loaded in the order in which they were first loaded. -/
theorem incremental_eq_reload (start : Workspace) (fs : FileSystem) (loads : List Pass)
    (last : Pass) (w : Workspace) (n : Nat) (log : List Loaded)
    (hlists : start.settings.ListsFiles start.root)
    (hloads : ∀ p ∈ loads ++ [last], p.Loads (start.settings.files start.root))
    (hrun : last.run (start.runAll (.reload fs :: loads)) = (w, .ok n))
    (hlog : log = (.reload fs :: (loads ++ [last])).flatMap
      (Pass.log (start.settings.files start.root)))
    (entries : List FileEntry) (hperm : entries.Perm start.settings.tokenFiles)
    (horder : (loadOrder log).Sublist
      (entries.map fun e => components (start.settings.target start.root e).path))
    (disk : FileSystem)
    (hdisk : ∀ t ∈ start.settings.files start.root,
      (disk.readText t.path).toOption = lastText? log (components t.path))
    (fresh : Workspace) (hroot : fresh.root = start.root)
    (hsettings : fresh.settings = { start.settings with tokenFiles := entries }) :
    ∃ w', fresh.reload disk = (w', .ok n) ∧
      w'.registry.toList.map (Token.withUri "") = w.registry.toList.map (Token.withUri "") := by
  have hd := distinct_files hlists
  -- What the last pass has read keeps to the log.
  obtain ⟨w', hread, htracks⟩ := (tracks_loads hlists fs fun p hp =>
    hloads p (List.mem_append_left _ hp)).read hd (hloads last (by simp))
  rw [← List.flatMap_singleton (Pass.log (start.settings.files start.root)) last,
    ← List.flatMap_append, List.cons_append, ← hlog] at htracks
  -- The reload shows the same log in the same order.
  have hfreshLists : fresh.settings.ListsFiles fresh.root := by
    rw [hroot, hsettings]
    exact hlists.perm hperm
  have hfiles : fresh.settings.files fresh.root =
      entries.map (start.settings.target start.root) := by
    rw [hroot, hsettings]
    rfl
  have hfilesPerm : (fresh.settings.files fresh.root).Perm (start.settings.files start.root) := by
    rw [hfiles]
    exact hperm.map _
  have hrestores : Restores log disk (fresh.settings.files fresh.root) := by
    refine htracks.restores hd (fun t ht => hfilesPerm.mem_iff.mp ht) ?_ fun t ht =>
      hdisk t (hfilesPerm.mem_iff.mp ht)
    rw [hfiles, List.map_map]
    exact horder
  have hbatch : w'.batch.map (Token.withUri "") =
      (fresh.withFiles disk (fresh.settings.files fresh.root)).batch.map (Token.withUri "") :=
    batch_congr_of_shows hd htracks.shows (hrestores.shows hd hfilesPerm fresh)
  -- So both publish the same.
  obtain ⟨w'', hread', -, hanswer⟩ := Pass.read_of_ok (congrArg Prod.snd hrun)
  cases Except.ok.inj (hread.symm.trans hread')
  rw [resolveAll_eq] at hanswer
  have hregistry := registry_run hread
  rw [hrun] at hregistry
  obtain ⟨hresult, hpublished⟩ := published_congr hbatch hanswer
    (start.runAll (.reload fs :: loads)).registry fresh.registry
  refine ⟨(fresh.withFiles disk (fresh.settings.files fresh.root)).resolveAll.1, ?_, ?_⟩
  · rw [reload_eq hfreshLists, resolveAll_eq, hresult]
  · rw [resolveAll_eq, hregistry]
    exact hpublished

/-! ## A file that comes late -/

/-- A text with a token `x`. -/
def earlyText : String := "\x7b\"x\":\x7b\"$value\":\"2\"\x7d\x7d"

/-- A text with another token `x`, and with `y`, which refers to it. -/
def lateText : String :=
  "\x7b\"x\":\x7b\"$value\":\"1\"\x7d,\"y\":\x7b\"$value\":\"\x7bx\x7d\"\x7d\x7d"

/-- Only the second file is there. -/
def earlyDisk : FileSystem := ⟨.directory [("b.json", .file earlyText.toUTF8)], []⟩

/-- Both files are there. -/
def bothDisk : FileSystem :=
  ⟨.directory [("a.json", .file lateText.toUTF8), ("b.json", .file earlyText.toUTF8)], []⟩

/-- The settings list both files. -/
def lateStart : Workspace := { settings := { tokenFiles := [.bare "a.json", .bare "b.json"] } }

/-- The first file is loaded. -/
def lateLoad : Pass := .loadText bothDisk "a.json" lateText

/-- The log of a reload without the first file, and of loading it then. -/
def lateLog : List Loaded :=
  [.reload earlyDisk, lateLoad].flatMap (Pass.log (lateStart.settings.files lateStart.root))

lemma lateLoad_ok : (lateLoad.run (lateStart.runAll [.reload earlyDisk])).2 = .ok 3 := by
  rw [← toOption_eq_some]
  decide +kernel

/-- Both files hold on disk what was loaded from them. -/
lemma bothDisk_text : ∀ t ∈ lateStart.settings.files lateStart.root,
    (bothDisk.readText t.path).toOption = lastText? lateLog (components t.path) := by
  decide +kernel

/-- The settings that list the files in the order in which they were loaded agree. -/
theorem incremental_eq_reload_late :
    ∃ w, lateLoad.run (lateStart.runAll [.reload earlyDisk]) = (w, .ok 3) ∧
      ∃ w', ({ settings := { tokenFiles := [.bare "b.json", .bare "a.json"] } } : Workspace).reload
          bothDisk = (w', .ok 3) ∧
        w'.registry.toList.map (Token.withUri "") = w.registry.toList.map (Token.withUri "") := by
  have hrun : lateLoad.run (lateStart.runAll [.reload earlyDisk]) = (_, .ok 3) :=
    Prod.ext rfl lateLoad_ok
  refine ⟨_, hrun, incremental_eq_reload lateStart earlyDisk [] lateLoad _ 3 lateLog
    ⟨rfl, by decide, by decide +kernel⟩ ?_ hrun rfl [.bare "b.json", .bare "a.json"]
    (.swap ..) (by decide +kernel) bothDisk bothDisk_text _ rfl rfl⟩
  intro p hp
  cases List.mem_singleton.mp hp
  exact ⟨lateStart.settings.target none (.bare "a.json"), List.mem_cons_self .., by decide +kernel⟩

/-- Whether what a pass resolves has a value under a file and a name, as text. -/
def Pass.displays (w : Workspace) (p : Pass) (file name text : String) : Bool :=
  (p.read w).toOption.any fun w' => (resolveBatch w'.batch).toOption.any fun resolved =>
    (Registry.last? resolved.1 ⟨file, name⟩).any fun t => t.displayValue = text

/-- The value is published. -/
lemma Pass.find?_of_displays {w : Workspace} {p : Pass} {file name text : String}
    (h : p.displays w file name text = true) :
    (((p.run w).1.registry.toList.map (Token.withUri "")).find? fun t =>
      t.filePath = file ∧ t.name = name).map Token.displayValue = some text := by
  simp only [displays, Option.any_eq_true, toOption_eq_some, decide_eq_true_eq] at h
  obtain ⟨w', hread, ⟨tokens, failures⟩, hok, t, hlast, htext⟩ := h
  have hvalid : (p.run w).1.registry.Valid := by
    rw [registry_run hread]
    exact valid_published ..
  have hfound : (p.run w).1.registry.qualified? name file = some t := by
    rw [registry_run hread, published, hok, ← hlast]
    exact Registry.qualified?_ofList ..
  rw [hvalid.qualified?_eq] at hfound
  rw [List.find?_map, ← htext]
  exact congrArg (fun found => (found.map (Token.withUri "")).map Token.displayValue) hfound

/-- The settings list the late file first. A reload resolves `y` with the `x` beside it, but the
workspace that has loaded the other file before resolves it with the `x` there. -/
theorem incremental_ne_reload :
    ∃ w w', lateLoad.run (lateStart.runAll [.reload earlyDisk]) = (w, .ok 3) ∧
      (∀ t ∈ lateStart.settings.files lateStart.root,
        (bothDisk.readText t.path).toOption = lastText? lateLog (components t.path)) ∧
      lateStart.reload bothDisk = (w', .ok 3) ∧
      w'.registry.toList.map (Token.withUri "") ≠ w.registry.toList.map (Token.withUri "") := by
  have hreload : (lateStart.reload bothDisk).2 = .ok 3 := by
    rw [← toOption_eq_some]
    decide +kernel
  refine ⟨(lateLoad.run (lateStart.runAll [.reload earlyDisk])).1, (lateStart.reload bothDisk).1,
    Prod.ext rfl lateLoad_ok, bothDisk_text, Prod.ext rfl hreload, fun heq => ?_⟩
  have hlate :
      lateLoad.displays (lateStart.runAll [.reload earlyDisk]) "a.json" "y" "2" = true := by
    decide +kernel
  have hfresh : Pass.displays lateStart (.reload bothDisk) "a.json" "y" "1" = true := by
    decide +kernel
  have hvalue := Pass.find?_of_displays hfresh
  rw [Pass.run, heq, Pass.find?_of_displays hlate] at hvalue
  exact absurd hvalue (by decide)

end Workspace

end DesignTokens
