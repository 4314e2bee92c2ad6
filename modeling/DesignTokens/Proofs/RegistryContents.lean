import DesignTokens.Proofs.WorkspaceRuns

/-!
# What a registry holds

A workspace knows each file by the path that it was asked for: the options of a file that the
settings name have its path (`Settings.filePath_of_mem_targets`), and so have the tokens of the
source that is made from it (`InPlace`). What is published comes from the sources, whichever way it
takes: parsed, inherited from another file, left unresolved, or carried over past a circle. So a
registry holds tokens of the present sources only, all of a known version, none of them a marker and
none resolved without a value (`registry_well_formed`).
-/

namespace DesignTokens

/-- The version of a document is never left open. -/
lemma Version.detect_known (doc : Json.Value) (assumed : Option Version) :
    detect doc assumed = .draft ∨ detect doc assumed = .v2025_10 := by
  have hurl : ∀ {address : String} {v : Version}, ofUrl address = .ok v →
      v = .draft ∨ v = .v2025_10 := by
    intro address v h
    simp only [ofUrl] at h
    split_ifs at h
    · exact .inl (Except.ok.inj h).symm
    · exact .inr (Except.ok.inj h).symm
  unfold detect
  split
  · next v hv =>
    obtain ⟨address, -, hok⟩ := Option.bind_eq_some_iff.mp hv
    exact hurl (Workspace.toOption_eq_some.mp hok)
  · split
    · exact .inl rfl
    · exact .inr rfl
    · split_ifs
      · exact .inr rfl
      · exact .inl rfl

lemma TokenFile.version_known_of_parse {content : String} {format : Format} {options : Options}
    {file : TokenFile} (h : parse content format options = .ok file) :
    file.version = .draft ∨ file.version = .v2025_10 := by
  obtain ⟨fields, -, rfl⟩ := parse_eq_ok h
  exact Version.detect_known _ _

/-- A path without components is empty. -/
lemma Path.eq_empty_of_components {path : String} (h : components path = []) : path = "" := by
  rw [← String.toList_eq_nil_iff]
  cases hchars : path.toList with
  | nil => rfl
  | cons c cs =>
    simp only [components] at h
    split_ifs at h with habsolute hpoint
    have hslash : c ≠ '/' := by
      rintro rfl
      rw [isAbsolute, Text.startsWith, hchars] at habsolute
      exact habsolute rfl
    -- The first segment starts with a character, and is not a point.
    obtain ⟨piece, pieces, hpieces⟩ : ∃ piece pieces,
        Text.splitChars '/' (c :: cs) = (c :: piece) :: pieces := by
      rw [Text.splitChars, if_neg hslash]
      split
      · exact ⟨_, _, rfl⟩
      · exact ⟨_, _, rfl⟩
    rw [Text.split, hchars, hpieces] at h hpoint
    rw [List.map_cons, List.filterMap_cons] at h
    split at h
    · next hnone =>
      unfold Component.ofSegment? at hnone
      split_ifs at hnone with hempty
      rcases hempty with hempty | hempty
      · exact absurd (congrArg String.toList hempty) (by simp)
      · rw [List.map_cons, hempty] at hpoint
        exact absurd rfl hpoint
    · cases h

/-- A file to load is known by its path. -/
lemma Settings.filePath_of_mem_targets {s : Settings} {fs : FileSystem} {root : Option String}
    {targets : List Target} (h : s.targets fs root = .ok targets) :
    ∀ t ∈ targets, t.options.filePath = t.path := by
  intro t ht
  unfold Settings.targets at h
  split at h
  · cases h
  · split_ifs at h
    · split at h
      · cases h
        cases ht
      · cases h
        obtain ⟨path, -, rfl⟩ := List.mem_map.mp ht
        rfl
    · cases h
      obtain ⟨e, -, rfl⟩ := List.mem_map.mp ht
      rfl

namespace Workspace

open Registry (last?)

lemma isTokenFile_of_mem {w : Workspace} {t : Target} {path : String} (ht : t ∈ w.targets)
    (hsame : Path.same t.path path = true) : w.isTokenFile path = true :=
  Bool.or_eq_true_iff.mpr (.inl (List.any_eq_true.mpr ⟨t, ht, hsame⟩))

/-- Files are known by their paths, and tokens by those of their sources. -/
structure InPlace (w : Workspace) : Prop where
  targets : ∀ t ∈ w.targets, t.options.filePath = t.path
  sources : ∀ s ∈ w.sources, ∀ t ∈ s.tokens, t.filePath = s.filePath

/-- The file path in the options for a path has the components of the path. -/
lemma InPlace.components_optionsFor {w : Workspace} (h : InPlace w) (path : String) :
    Path.components (w.optionsFor path).filePath = Path.components path := by
  unfold optionsFor
  split
  · next t ht =>
    have hsame := List.find?_some ht
    rw [h.targets t (List.mem_of_find?_eq_some ht)]
    exact of_decide_eq_true hsame
  · rfl

lemma filePath_of_parse {content : String} {format : TokenFile.Format}
    {options : TokenFile.Options} {file : TokenFile}
    (h : TokenFile.parse content format options = .ok file) :
    ∀ t ∈ file.tokens, t.filePath = options.filePath :=
  fun t ht => (TokenFile.authored_of_parse h t ht).filePath_eq

/-- The tokens of a file that is read have the path in the options. Options without a path would
take that of the file, but then it is empty too. -/
lemma filePath_of_readTokenFile {fs : FileSystem} {path : String} {options : TokenFile.Options}
    (hpath : Path.components options.filePath = Path.components path) {file : TokenFile}
    (h : readTokenFile fs path options = .ok file) :
    ∀ t ∈ file.tokens, t.filePath = options.filePath := by
  obtain ⟨content, -, hparse⟩ := readTokenFile_eq_ok.mp h
  have hsame : (completeOptions fs path options).filePath = options.filePath := by
    change (if options.filePath.isEmpty then path else options.filePath) = options.filePath
    split_ifs with hempty
    · have hnil : options.filePath = "" := by simpa using hempty
      rw [hnil] at hpath ⊢
      exact Path.eq_empty_of_components hpath.symm
    · rfl
  intro t ht
  rw [filePath_of_parse hparse t ht, hsame]

/-- The tokens that a pass reads from one file. -/
lemma filePath_of_file? {w : Workspace} (hw : InPlace w) {p : Pass} {filePath : String}
    {file : TokenFile} (h : p.file? w = some (filePath, .ok file)) :
    ∀ t ∈ file.tokens, t.filePath = filePath := by
  cases p with
  | reload fs => cases h
  | loadFile fs path =>
    obtain ⟨rfl, hread⟩ := Prod.mk.inj (Option.some.inj h)
    exact filePath_of_readTokenFile (hw.components_optionsFor path) hread
  | loadText fs path text =>
    obtain ⟨rfl, hparse⟩ := Prod.mk.inj (Option.some.inj h)
    exact filePath_of_parse hparse
  | resolveAll => cases h

lemma inPlace_of_read {w w' : Workspace} {p : Pass} (h : p.read w = .ok w') (hw : InPlace w) :
    InPlace w' := by
  rcases Pass.read_cases h with ⟨fs, targets, -, htargets, rfl⟩ |
    ⟨filePath, parsed, hfile, rfl, -⟩ | ⟨-, rfl⟩
  · have hpaths := Settings.filePath_of_mem_targets htargets
    refine ⟨hpaths, fun s hs => ?_⟩
    obtain ⟨t, ht, hload⟩ := mem_sources_withFiles hs
    obtain ⟨file, hread, rfl⟩ := loadTarget_eq_ok.mp hload
    exact filePath_of_readTokenFile (congrArg Path.components (hpaths t ht)) hread
  · cases parsed with
    | error e => exact ⟨hw.targets, hw.sources⟩
    | ok file =>
      refine ⟨hw.targets, fun s hs => ?_⟩
      rcases mem_setSource hs with rfl | hs
      · exact filePath_of_file? hw hfile
      · exact hw.sources s hs
  · exact hw

lemma inPlace_after (ops : List Operation) : InPlace (after ops) := by
  refine after_invariant ?_ ?_ ?_ ?_ ops
  · constructor
    · intro t ht
      cases ht
    · intro s hs
      cases hs
  · exact fun w settings h => ⟨h.targets, h.sources⟩
  · exact fun w root h => ⟨h.targets, h.sources⟩
  · intro w p w' h hread
    have hread' := inPlace_of_read hread h
    rw [resolveAll_eq]
    exact ⟨hread'.targets, hread'.sources⟩

/-- What all tokens of the sources have in common. -/
lemma exists_source_of_mem_batch (ops : List Operation) {t : Token} (ht : t ∈ (after ops).batch) :
    t.isResolved = false ∧ t.resolvedValue = none ∧
      (∃ s ∈ (after ops).sources, s.filePath = t.filePath) ∧
      (t.version = .draft ∨ t.version = .v2025_10) := by
  obtain ⟨s, hs, hts⟩ := List.mem_flatMap.mp ht
  obtain ⟨content, format, options, file, hparse, heq⟩ := asParsed_after ops s hs
  have hauthored := TokenFile.authored_of_parse hparse t (heq ▸ hts)
  refine ⟨hauthored.isResolved_eq, hauthored.resolvedValue_eq,
    ⟨s, hs, ((inPlace_after ops).sources s hs t hts).symm⟩, ?_⟩
  rw [hauthored.version_eq]
  exact TokenFile.version_known_of_parse hparse

/-- After all operations, whatever was read and whatever failed: each token of the registry is no
marker, has a resolved value exactly if it is resolved, has the path of one of the present sources,
and a known version; and for each token of the sources but the markers the registry holds one of the
same file and name. -/
theorem registry_well_formed (ops : List Operation) :
    (∀ t ∈ (after ops).registry.toList,
      t.isExtendsMarker = false ∧
      (t.isResolved = true ↔ t.resolvedValue.isSome = true) ∧
      (∃ s ∈ (after ops).sources, s.filePath = t.filePath) ∧
      (t.version = .draft ∨ t.version = .v2025_10)) ∧
    ∀ s ∈ (after ops).sources, ∀ t ∈ s.tokens, t.isExtendsMarker = false →
      ∃ u ∈ (after ops).registry.toList, u.filePath = t.filePath ∧ u.name = t.name := by
  have hsteady := steady_after ops
  rw [← hsteady.registry]
  refine ⟨fun t ht => ?_, fun s hs t ht hmarker => ?_⟩
  · obtain ⟨hmarker, s, hs, hresolves⟩ := exists_source_of_mem_published hsteady.valid ht
    obtain ⟨hres, hval, hfile, hversion⟩ := exists_source_of_mem_batch ops hs
    refine ⟨hmarker, ?_⟩
    rcases hresolves with heq | ⟨v, heq⟩
    · rw [heq]
      exact ⟨by simp [hres, hval], hfile, hversion⟩
    · rw [heq]
      exact ⟨⟨fun _ => rfl, fun _ => rfl⟩, hfile, hversion⟩
  · have hbatch : t ∈ (after ops).batch := List.mem_flatMap.mpr ⟨s, hs, ht⟩
    obtain ⟨u, hu, hkey⟩ := exists_mem_published hsteady.valid hbatch hmarker
    exact ⟨u, hu, Token.key_eq_iff.mp hkey⟩

/-- A text with a group of one token. -/
def paletteText : String :=
  "\x7b\"base\":\x7b\"red\":\x7b\"$value\":\"#f00\"\x7d\x7d\x7d"

/-- A text with a group that extends this one. -/
def themeText : String :=
  "\x7b\"theme\":\x7b\"$extends\":\"#/base\"\x7d\x7d"

/-- Both texts are loaded, as different files. -/
def paletteRun : List Operation :=
  [.pass (.loadText .empty "palette.json" paletteText),
    .pass (.loadText .empty "theme.json" themeText)]

/-- The token that the second file inherits has the path of the first. -/
theorem registry_well_formed_inherited :
    ∃ t ∈ (after paletteRun).registry.toList, t.name = "theme-red" ∧
      t.filePath = "palette.json" ∧ t.isResolved = true ∧ t.isExtendsMarker = false ∧
      t.resolvedValue.isSome = true ∧ (∃ s ∈ (after paletteRun).sources, s.filePath = t.filePath) ∧
      (t.version = .draft ∨ t.version = .v2025_10) := by
  have hview : (Pass.read (after (paletteRun.take 1))
        (.loadText .empty "theme.json" themeText)).toOption.any (fun w =>
      (resolveBatch w.batch).toOption.any fun resolved =>
        (last? resolved.1 ⟨"palette.json", "theme-red"⟩).any fun t => t.isResolved) = true := by
    decide +kernel
  simp only [Option.any_eq_true, toOption_eq_some] at hview
  obtain ⟨w, hread, ⟨tokens, failures⟩, hok, t, hlast, hres⟩ := hview
  have hkey := (Registry.of_last?_eq_some hlast).2
  have hmem : t ∈ (after paletteRun).registry.toList :=
    (mem_registry_run hread hok).mpr (hkey ▸ hlast)
  obtain ⟨hfile, hname⟩ := Token.key_eq_iff.mp hkey
  obtain ⟨hmarker, hvalue, hsource, hversion⟩ := (registry_well_formed paletteRun).1 t hmem
  exact ⟨t, hmem, hname, hfile, hres, hmarker, hvalue.mp hres, hsource, hversion⟩

end Workspace

end DesignTokens
