import DesignTokens.Settings
import Mathlib.Data.List.TakeWhile

/-!
# Settings and their JSON form

A shape undoes a way of writing (`Shape.Undoes`) if it reads what was written as what it was
written for. Lists and fields that may be missing keep that, so the forms of a file entry and of
settings are read back, whatever these hold (`FileEntry.undoes_shape`, `Settings.undoes_shape`).
Settings are then refused only for an entry without a path, wherever their form stands
(`Settings.ofJson_toJson`).
-/

namespace DesignTokens

/-! ## Blank texts -/

namespace Text

/-- Nothing is left of blanks only. -/
lemma trimChars_eq_nil {cs : List Char} : trimChars cs = [] ↔ ∀ c ∈ cs, isBlank c = true := by
  rw [trimChars, trimEnd, List.reverse_eq_nil_iff, List.dropWhile_eq_nil_iff]
  constructor
  · intro h
    -- What a trimmed front leaves does not start with a blank.
    have hstart : trimStart cs = [] := by
      by_contra hne
      have hhead : isBlank ((trimStart cs).head hne) = false := List.head_dropWhile_not isBlank hne
      rw [h _ (List.mem_reverse.mpr (List.head_mem hne))] at hhead
      cases hhead
    exact List.dropWhile_eq_nil_iff.mp hstart
  · intro h c hc
    exact h c ((List.dropWhile_sublist _).subset (List.mem_reverse.mp hc))

/-- A text is blank exactly if trimming leaves nothing of it. -/
lemma allBlank_iff_trim {s : String} : allBlank s = true ↔ trim s = "" := by
  rw [allBlank, List.all_eq_true, ← trimChars_eq_nil, trim, String.ofList_eq_empty_iff]

end Text

namespace Json

/-! ## Fields of an object -/

namespace Fields

/-- An inserted field is found under its key, and the others are found as before. -/
lemma get?_insert (fields : Fields) (key k : String) (v : Value) :
    (fields.insert key v).get? k = if key = k then some v else fields.get? k := by
  induction fields with
  | nil => rfl
  | cons e rest ih =>
    obtain ⟨k', v'⟩ := e
    rw [insert]
    -- The field goes in the place of this one, before it or somewhere behind it.
    by_cases hsame : key = k'
    · rw [if_pos hsame, ← hsame, get?, get?]
      split_ifs
      · rfl
      · rfl
    · rw [if_neg hsame]
      by_cases hless : key < k'
      · rw [if_pos hless, get?]
      · rw [if_neg hless, get?, get?, ih]
        split_ifs with hk' hk
        · exact absurd (hk.trans hk'.symm) hsame
        · rfl
        · rfl
        · rfl

/-- Of fields with the same key the last one is found. -/
lemma get?_ofList_concat (entries : List (String × Value)) (e : String × Value) (k : String) :
    (ofList (entries ++ [e])).get? k = if e.1 = k then some e.2 else (ofList entries).get? k := by
  rw [ofList, List.foldl_append]
  exact get?_insert _ _ _ _

/-- A field that may be missing comes before the earlier ones of its name. -/
lemma get?_ofList_presentField (entries : List (String × Value)) (name k : String)
    (v : Option Value) :
    (ofList (entries ++ FileEntry.presentField name v)).get? k =
      (if name = k then v else none).or ((ofList entries).get? k) := by
  cases v with
  | none => simp [FileEntry.presentField]
  | some v =>
    rw [FileEntry.presentField, get?_ofList_concat]
    split_ifs
    · rfl
    · rfl

end Fields

/-! ## Reading what was written -/

namespace Shape

variable {α : Type}

/-- The shape reads what is written as what it was written for. -/
def Undoes (shape : Shape α) (write : α → Value) : Prop :=
  ∀ a, shape (write a) = .ok a

lemma undoes_text : Undoes text .string :=
  fun _ => rfl

variable {shape : Shape α} {write : α → Value}

/-- Lists are read back if their items are. -/
lemma Undoes.list (h : Undoes shape write) :
    Undoes (list shape) fun items => .array (items.map write) := by
  intro items
  rw [Shape.list]
  induction items with
  | nil => rfl
  | cons a items ih =>
    rw [List.map_cons, Shape.items, h a, ih]
    rfl

lemma undoes_texts : Undoes (Shape.list text) Value.ofStrings :=
  undoes_text.list

/-- A field that may be missing is read back if its value is. -/
lemma Undoes.field? (h : Undoes shape write) {fields : Fields} {name : String} {a : Option α}
    (hget : fields.get? name = a.map write) : field? fields name shape = .ok a := by
  rw [Shape.field?, hget]
  cases a with
  | none => rfl
  | some a =>
    rw [Option.map_some]
    simp only [h a]
    rfl

/-- A shape for null or a value reads a value as that value. -/
lemma Undoes.optional (h : Undoes shape write) (hnull : ∀ a, write a ≠ .null) (a : α) :
    optional shape (write a) = .ok (some a) := by
  unfold Shape.optional
  split
  · next heq => exact absurd heq (hnull a)
  · rw [h a]
    rfl

lemma join_map_some (a : Option α) : (a.map some).join = a := by
  cases a with
  | none => rfl
  | some a => rfl

/-- A field that is left out for none, and would be read as none for null too. -/
lemma Undoes.optionalField? (h : Undoes shape write) (hnull : ∀ a, write a ≠ .null)
    {fields : Fields} {name : String} {a : Option α} (hget : fields.get? name = a.map write) :
    Shape.field? fields name (Shape.optional shape) = .ok (a.map some) := by
  rw [Shape.field?, hget]
  cases a with
  | none => rfl
  | some a =>
    rw [Option.map_some]
    simp only [h.optional hnull a]
    rfl

end Shape

end Json

open Json Json.Shape

/-! ## Entries -/

namespace FileEntry

/-- The fields of the form of an entry with settings of its own. -/
def formFields (path : String) (cssPrefix : Option String) (groupMarkers : Option (List String)) :
    Json.Fields :=
  .ofList ([("path", .string path)] ++ presentField "prefix" (cssPrefix.map .string)
    ++ presentField "groupMarkers" (groupMarkers.map .ofStrings))

/-- The fields of the detailed form of an entry: its path, and what else is given. -/
lemma get?_formFields (path : String) (cssPrefix : Option String)
    (groupMarkers : Option (List String)) (k : String) :
    (formFields path cssPrefix groupMarkers).get? k =
      (if "groupMarkers" = k then groupMarkers.map .ofStrings else none).or
        ((if "prefix" = k then cssPrefix.map .string else none).or
          (if "path" = k then some (.string path) else none)) := by
  rw [formFields, Fields.get?_ofList_presentField, Fields.get?_ofList_presentField]
  rfl

/-- The detailed form of an entry is read back. -/
lemma readDetailed_formFields (path : String) (cssPrefix : Option String)
    (groupMarkers : Option (List String)) :
    readDetailed (formFields path cssPrefix groupMarkers) =
      .ok (.detailed path cssPrefix groupMarkers) := by
  set fields := formFields path cssPrefix groupMarkers with hfields
  have hmarkers := undoes_texts.optionalField? (fun _ => by simp [Value.ofStrings])
    (show fields.get? "groupMarkers" = groupMarkers.map _ by simp [hfields, get?_formFields])
  have hpath := undoes_text.field?
    (show fields.get? "path" = (some path).map _ by simp [hfields, get?_formFields])
  have hcss := undoes_text.optionalField? (fun _ => by simp)
    (show fields.get? "prefix" = cssPrefix.map _ by simp [hfields, get?_formFields])
  simp [readDetailed, hmarkers, hpath, hcss, join_map_some, required, bind, Except.bind, pure,
    Except.pure]

/-- An entry is read back from both of its forms. -/
lemma undoes_shape : Undoes shape toJson := by
  intro e
  cases e with
  | bare path => rfl
  | detailed path cssPrefix groupMarkers =>
    change (readDetailed (formFields path cssPrefix groupMarkers)).mapError _ = _
    rw [readDetailed_formFields]
    rfl

end FileEntry

/-! ## Settings -/

namespace Settings

/-- A version is read back from its name. -/
lemma undoes_versionShape : Undoes versionShape fun v => .string v.name := by
  intro v
  cases v with
  | unknown => rfl
  | draft => rfl
  | v2025_10 => rfl

/-- The fields of the form of settings. -/
def formFields (s : Settings) : Json.Fields :=
  .ofList ([("tokensFiles", .array (s.tokenFiles.map FileEntry.toJson)),
     ("prefix", .string s.cssPrefix),
     ("groupMarkers", .ofStrings s.groupMarkers)]
    ++ FileEntry.presentField "schemaVersion" (s.version.map fun v => .string v.name))

lemma toJson_eq (s : Settings) : s.toJson = .object s.formFields :=
  rfl

/-- The fields of written settings: the version may be missing, the others are always there. -/
lemma get?_formFields (s : Settings) (k : String) :
    s.formFields.get? k =
      (if "schemaVersion" = k then s.version.map fun v => .string v.name else none).or
        (if "groupMarkers" = k then some (.ofStrings s.groupMarkers)
        else if "prefix" = k then some (.string s.cssPrefix)
        else if "tokensFiles" = k then some (.array (s.tokenFiles.map FileEntry.toJson))
        else none) := by
  rw [formFields, Fields.get?_ofList_presentField]
  simp only [Fields.ofList, List.foldl_cons, List.foldl_nil, Fields.get?_insert]
  rfl

/-- Settings are read back from what is written for them. -/
lemma undoes_shape : Undoes shape toJson := by
  intro s
  have hmarkers := undoes_texts.field?
    (show s.formFields.get? "groupMarkers" = (some s.groupMarkers).map _ by
      simp [get?_formFields])
  have hcss := undoes_text.field?
    (show s.formFields.get? "prefix" = (some s.cssPrefix).map _ by simp [get?_formFields])
  have hversion := undoes_versionShape.optionalField? (fun _ => by simp)
    (show s.formFields.get? "schemaVersion" = s.version.map _ by simp [get?_formFields])
  have hfiles := FileEntry.undoes_shape.list.field?
    (show s.formFields.get? "tokensFiles" = (some s.tokenFiles).map _ by simp [get?_formFields])
  simp [toJson_eq, shape, hmarkers, hcss, hversion, hfiles, ofParts, join_map_some, bind,
    Except.bind, pure, Except.pure]

/-- Settings are valid if no entry has a blank path. -/
lemma validate_eq_ok {s : Settings} :
    s.validate = .ok () ↔ ∀ e ∈ s.tokenFiles, Text.allBlank e.path = false := by
  unfold validate
  -- The check looks for an entry, and its error is about the first that it finds.
  cases hfind : s.tokenFiles.find? fun e => Text.allBlank e.path with
  | none =>
    rw [List.find?_eq_none] at hfind
    simpa using hfind
  | some e =>
    have hblank := List.find?_some hfind
    simp only [reduceCtorEq, false_iff, not_forall]
    exact ⟨e, List.mem_of_find?_eq_some hfind, by simp [hblank]⟩

/-! ## Where the form stands -/

/-- A value that presents settings by their form: the form itself, or an object that has it under a
name of the server. The name with hyphens counts if the other one is not there. -/
inductive Presents (form : Json.Value) : Json.Value → Prop
  | flat : Presents form form
  | nested (fields : Json.Fields) (h : fields.get? "designTokensLanguageServer" = some form) :
      Presents form (.object fields)
  | hyphenated (fields : Json.Fields) (hnone : fields.get? "designTokensLanguageServer" = none)
      (h : fields.get? "design-tokens-language-server" = some form) :
      Presents form (.object fields)

/-- The form is found where it stands. -/
lemma Presents.ownPart_eq {s : Settings} {v : Json.Value} (h : Presents s.toJson v) :
    ∃ fields, v = .object fields ∧ ownPart fields = s.toJson := by
  cases h with
  | flat =>
    refine ⟨s.formFields, rfl, ?_⟩
    simp [ownPart, sectionName, hyphenatedName, get?_formFields, toJson_eq]
  | nested fields h =>
    refine ⟨fields, rfl, ?_⟩
    rw [ownPart, sectionName, h, Option.some_or, Option.getD_some]
  | hyphenated fields hnone h =>
    refine ⟨fields, rfl, ?_⟩
    rw [ownPart, sectionName, hyphenatedName, hnone, h, Option.none_or, Option.getD_some]

/-- What is read from the form is what was written, once it is validated. -/
lemma ofJson_of_presents {s : Settings} {v : Json.Value} (h : Presents s.toJson v) :
    ofJson v = s.validate.map fun _ => s := by
  obtain ⟨fields, rfl, hpart⟩ := h.ownPart_eq
  have hshape := undoes_shape s
  rw [toJson_eq] at hpart hshape
  simp only [ofJson, hpart, hshape]

/-- Settings are read back from their JSON form, flat or under either name of the server, exactly if
no entry of the list of files has a blank path. -/
theorem ofJson_toJson (s : Settings) (v : Json.Value) (hv : Presents s.toJson v) :
    ofJson v = .ok s ↔ ∀ e ∈ s.tokenFiles, Text.trim e.path ≠ "" := by
  have hpaths : (∀ e ∈ s.tokenFiles, Text.trim e.path ≠ "") ↔ s.validate = .ok () := by
    rw [validate_eq_ok]
    refine forall₂_congr fun e _ => ?_
    rw [ne_eq, ← Text.allBlank_iff_trim, Bool.not_eq_true]
  rw [hpaths, ofJson_of_presents hv]
  cases s.validate with
  | error e => simp [Except.map]
  | ok u => simp [Except.map]

/-- Settings with an entry of each kind, and group markers that differ from the default. -/
def variedSettings : Settings :=
  { tokenFiles := [.bare "a.json", .detailed " b.json" (some "") none,
      .detailed "npm:c" none (some []), .detailed "d" (some "x") (some ["_"])]
    groupMarkers := []
    version := some .unknown }

/-- The settings stand among others, and are read back. -/
theorem ofJson_toJson_varied :
    Presents variedSettings.toJson (.ofFields [("editor.tabSize", .ofNat 2),
        ("design-tokens-language-server", variedSettings.toJson)]) ∧
      (∀ e ∈ variedSettings.tokenFiles, Text.trim e.path ≠ "") ∧
      ofJson (.ofFields [("editor.tabSize", .ofNat 2),
        ("design-tokens-language-server", variedSettings.toJson)]) = .ok variedSettings := by
  have hpresents : Presents variedSettings.toJson (.ofFields [("editor.tabSize", .ofNat 2),
      ("design-tokens-language-server", variedSettings.toJson)]) :=
    .hyphenated _ rfl rfl
  have hpaths : ∀ e ∈ variedSettings.tokenFiles, Text.trim e.path ≠ "" := by decide
  exact ⟨hpresents, hpaths, (ofJson_toJson _ _ hpresents).mpr hpaths⟩

end Settings

end DesignTokens
