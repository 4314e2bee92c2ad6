import DesignTokens.Proofs.MentionOrder
import DesignTokens.Proofs.WholeReferences

/-!
# References read back from a rendered text

A text with references is made of literal pieces and of paths in braces in turn (`Template`). The
scan for references gives back the paths, whatever braces of the other kind stand in the pieces:
a path may hold opening braces and a literal piece closing ones (`curlyPaths_text`). The names that
a token refers to are those of the paths, each once, in the order in which they come first, and
outside of the draft version the name of the pointer that the text may be as well
(`Token.dependencies_of_ne_draft`).
-/

namespace DesignTokens

namespace Reference

/-! ## Texts with references -/

/-- A path to be put in braces, with the text up to the next one. -/
structure Piece where
  path : String
  after : String
  path_ne : path ≠ ""
  /-- The path does not end early. -/
  path_unclosed : '}' ∉ path.toList
  /-- No other path begins behind it. -/
  after_unopened : '{' ∉ after.toList

/-- Literal text and paths in turn. -/
structure Template where
  /-- The text before the first path. -/
  lead : String
  pieces : List Piece
  lead_unopened : '{' ∉ lead.toList

namespace Template

/-- A text followed by paths in braces and the texts after them. -/
def textFrom : (lead : String) → List Piece → String
  | lead, [] => lead
  | lead, p :: rest => lead ++ braced p.path ++ textFrom p.after rest

/-- The text of a template. -/
def text (t : Template) : String :=
  textFrom t.lead t.pieces

/-- The names that the paths of a template stand for. -/
def names (t : Template) : List String :=
  t.pieces.map fun p => dottedToName (Text.trim p.path)

lemma braceGroups_textFrom {lead : String} (hlead : '{' ∉ lead.toList) (pieces : List Piece) :
    braceGroups none (textFrom lead pieces).toList = pieces.map fun p => p.path.toList := by
  induction pieces generalizing lead with
  | nil => exact braceGroups_eq_nil hlead
  | cons p rest ih =>
    have htext : (textFrom lead (p :: rest)).toList =
        lead.toList ++ '{' :: (p.path.toList ++ '}' :: (textFrom p.after rest).toList) := by
      simp [textFrom, toList_braced]
    rw [htext, braceGroups_group (ungrouped_of_notMem hlead) (by simpa using p.path_ne)
      p.path_unclosed, ih p.after_unopened, List.map_cons]

/-- The scan gives back the paths of a template, without the blanks around them. -/
lemma curlyPaths_text (t : Template) :
    curlyPaths t.text = t.pieces.map fun p => Text.trim p.path := by
  rw [curlyPaths, text, braceGroups_textFrom t.lead_unopened, List.map_map]
  rfl

end Template

end Reference

/-! ## Names that a token refers to -/

namespace Token

open Reference

variable {t : Token}

/-- The names of the paths in braces, added one by one. -/
lemma dependencies_draft (hraw : t.rawValue = none) :
    t.dependencies .draft = ((curlyPaths t.value).map dottedToName).foldl addNew [] := by
  rw [← distinct_eq]
  simp [dependencies, referenceText?, hraw, extract, tokenName, Function.comp_def]

/-- Outside of the draft version a pointer comes last. -/
lemma dependencies_of_ne_draft (hraw : t.rawValue = none) {version : Version}
    (hversion : version ≠ .draft) :
    t.dependencies version =
      match pointerPath? t.value with
      | some path => addNew (t.dependencies .draft) (slashedToName path)
      | none => t.dependencies .draft := by
  rw [dependencies_draft hraw]
  have hnames : t.dependencies version =
      ((extract t.value version).map tokenName).foldl addNew [] := by
    rw [← distinct_eq]
    simp [dependencies, referenceText?, hraw]
  rw [hnames, extract, if_neg hversion]
  cases pointerPath? t.value with
  | none => simp [tokenName, Function.comp_def]
  | some path => simp [tokenName, Function.comp_def, List.foldl_append]

end Token

namespace Reference

/-- The references in a rendered text are the paths that it was rendered from, blanks around them
aside. A token with this text refers to their names, each once and in the order of first appearance;
outside of the draft version, and if the text is a pointer, also to the name of the pointer, last
and unless it is one of them. -/
theorem rendered_references (template : Template) :
    curlyPaths template.text = template.pieces.map (fun p => Text.trim p.path) ∧
    ∀ t : Token, t.rawValue = none → t.value = template.text →
      FirstMentions template.names (t.dependencies .draft) ∧
      ∀ version, version ≠ .draft →
        (∀ path, template.text = "#/" ++ path →
          t.dependencies version = t.dependencies .draft ++
            if slashedToName path ∈ t.dependencies .draft then [] else [slashedToName path]) ∧
        ((∀ path, template.text ≠ "#/" ++ path) →
          t.dependencies version = t.dependencies .draft) := by
  refine ⟨template.curlyPaths_text, fun t hraw hvalue => ⟨?_, fun version hversion => ⟨?_, ?_⟩⟩⟩
  · have hnames : (curlyPaths t.value).map dottedToName = template.names := by
      rw [hvalue, template.curlyPaths_text, List.map_map]
      rfl
    rw [Token.dependencies_draft hraw, hnames]
    exact firstMentions_foldl _
  · intro path hpath
    have hpointer : pointerPath? t.value = some path :=
      pointerPath?_eq_some.mpr (hvalue.trans hpath)
    rw [Token.dependencies_of_ne_draft hraw hversion, hpointer]
    show addNew _ _ = _
    rw [addNew]
    split_ifs
    · rw [List.append_nil]
    · rfl
  · intro hpath
    have hpointer : pointerPath? t.value = none := by
      rw [Option.eq_none_iff_forall_ne_some]
      intro path hsome
      exact hpath path (hvalue ▸ pointerPath?_eq_some.mp hsome)
    rw [Token.dependencies_of_ne_draft hraw hversion, hpointer]

/-- An opening brace in a path, closing ones between the paths, and one path twice. -/
def mixedPieces : List Piece :=
  [⟨" a.b ", " \x7d ", by decide, by decide, by decide⟩,
    ⟨"c\x7bd", "", by decide, by decide, by decide⟩,
    ⟨"a.b", "\x7d", by decide, by decide, by decide⟩]

/-- These behind the start of a pointer. -/
def pointerTemplate : Template := ⟨"#/p", mixedPieces, by decide⟩

/-- These behind a text that starts no pointer. -/
def plainTemplate : Template := ⟨"p", mixedPieces, by decide⟩

theorem rendered_references_mixed :
    pointerTemplate.text = "#/" ++ "p\x7b a.b \x7d \x7d \x7bc\x7bd\x7d\x7ba.b\x7d\x7d" ∧
    curlyPaths pointerTemplate.text = ["a.b", "c\x7bd", "a.b"] ∧
    FirstMentions ["a-b", "c\x7bd", "a-b"]
      (({ value := pointerTemplate.text } : Token).dependencies .draft) ∧
    ({ value := pointerTemplate.text } : Token).dependencies .v2025_10 =
      ["a-b", "c\x7bd", "p\x7b a.b \x7d \x7d \x7bc\x7bd\x7d\x7ba.b\x7d\x7d"] ∧
    (∀ path, plainTemplate.text ≠ "#/" ++ path) ∧
    ({ value := plainTemplate.text } : Token).dependencies .unknown = ["a-b", "c\x7bd"] := by
  have hpointer : pointerTemplate.text =
      "#/" ++ "p\x7b a.b \x7d \x7d \x7bc\x7bd\x7d\x7ba.b\x7d\x7d" := by
    decide +kernel
  have hnone : pointerPath? plainTemplate.text = none := by decide +kernel
  have hplain : ∀ path, plainTemplate.text ≠ "#/" ++ path := by
    intro path hpath
    rw [pointerPath?_eq_some.mpr hpath] at hnone
    cases hnone
  obtain ⟨hpaths, htokens⟩ := rendered_references pointerTemplate
  obtain ⟨hfirst, hversions⟩ := htokens { value := pointerTemplate.text } rfl rfl
  obtain ⟨-, htokens'⟩ := rendered_references plainTemplate
  obtain ⟨-, hversions'⟩ := htokens' { value := plainTemplate.text } rfl rfl
  refine ⟨hpointer, hpaths.trans (by decide +kernel), hfirst, ?_, hplain, ?_⟩
  · rw [(hversions .v2025_10 (by decide)).1 _ hpointer]
    decide +kernel
  · rw [(hversions' .unknown (by decide)).2 hplain]
    decide +kernel

end Reference

end DesignTokens
