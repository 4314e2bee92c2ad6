import DesignTokens.TokenFile
import Mathlib.Data.List.Basic

/-!
# The tokens of a token file

What all tokens of a file have in common, whatever the document holds:

* `Authored`: a token is named after its path, has the file and the version of its file, and is not
  resolved (`authored_of_parse`);
* the address of the file is only passed on to the tokens: reading the same text under another
  address gives the same tokens with the other address (`parse_withUri`).

Both go through the groups of the document, one case for each kind of field (`groupTokens`).
-/

namespace DesignTokens

/-- The token with another address of its file. -/
def Token.withUri (u : String) (t : Token) : Token :=
  { t with definitionUri := u }

namespace TokenFile

/-! ## What tokens have from their file -/

/-- A token as a file defines it. -/
structure Authored (c : Context) (t : Token) : Prop where
  name_eq : t.name = Text.join "-" t.path
  filePath_eq : t.filePath = c.options.filePath
  version_eq : t.version = c.version
  isResolved_eq : t.isResolved = false
  resolvedValue_eq : t.resolvedValue = none

/-- The token of a node is authored. -/
lemma authored_nodeToken (c : Context) (path : List String) (type : Option String) (spot : Spot)
    (node : Json.Value) : Authored c (nodeToken c path type spot node) :=
  ⟨rfl, rfl, rfl, rfl, rfl⟩

/-- What a group says about itself is authored. -/
lemma authored_groupHead (c : Context) (path : List String) (type : Option String) (spot : Spot)
    (group : Json.Value) : ∀ t ∈ groupHead c path type spot group, Authored c t := by
  intro t ht
  unfold groupHead at ht
  split_ifs at ht
  · rcases List.mem_append.mp ht with ht | ht
    · unfold extendsMarker at ht
      split at ht
      · rw [List.mem_singleton.mp ht]
        exact ⟨rfl, rfl, rfl, rfl, rfl⟩
      · cases ht
    · unfold rootToken at ht
      split at ht
      · split_ifs at ht
        · rw [List.mem_singleton.mp ht]
          exact authored_nodeToken ..
        · cases ht
      · cases ht
  · cases ht

/-- All tokens of a group are authored, and so are those of its children. -/
lemma authored_tokens (c : Context) :
    (∀ path type spot v, ∀ t ∈ groupTokens c path type spot v, Authored c t) ∧
      ∀ path type spot fields, ∀ t ∈ childTokens c path type spot fields, Authored c t := by
  apply groupTokens.mutual_induct c
    (fun path type spot v => ∀ t ∈ groupTokens c path type spot v, Authored c t)
    (fun path type spot fields => ∀ t ∈ childTokens c path type spot fields, Authored c t)
  -- A group: its head and its children.
  · intro path type spot fields ih t ht
    rw [groupTokens, List.mem_append] at ht
    rcases ht with ht | ht
    · exact authored_groupHead c path type spot _ t ht
    · exact ih t ht
  -- A value that is no object has no tokens.
  · intro v path type spot hv t ht
    rw [groupTokens] at ht
    · cases ht
    · exact hv
  · intro path type spot t ht
    rw [childTokens] at ht
    cases ht
  -- A child: its own token, what is in it, and the other children.
  · intro path type spot key fields rest ihGroup ihRest t ht
    rw [childTokens, List.mem_append] at ht
    rcases ht with ht | ht
    · simp only at ht ihGroup
      have hown : ∀ type' place, ∀ t ∈ (if hasValue (.object fields) = true then
          [nodeToken c (path ++ [key]) type' place (.object fields)] else []), Authored c t := by
        intro type' place t ht
        split_ifs at ht
        · rw [List.mem_singleton.mp ht]
          exact authored_nodeToken ..
        · cases ht
      by_cases hdollar : Text.startsWith "$" key = true
      · rw [if_pos hdollar] at ht
        cases ht
      · rw [if_neg hdollar] at ht
        by_cases hgroup : (!hasValue (.object fields) || c.options.groupMarkers.contains key) = true
        · rw [if_pos hgroup, List.mem_append] at ht
          rcases ht with ht | ht
          · exact hown _ _ t ht
          · exact ihGroup t ht
        · rw [if_neg hgroup] at ht
          exact hown _ _ t ht
    · exact ihRest t ht
  · intro path type spot key v rest hv ih t ht
    rw [childTokens] at ht
    · exact ih t ht
    · exact hv

/-- What a text is read as. -/
lemma parse_eq_ok {content : String} {format : Format} {options : Options} {file : TokenFile}
    (h : parse content format options = .ok file) :
    ∃ fields, readDocument format content = .ok (.object fields) ∧
      file = ofDocument (.object fields) content format options := by
  unfold parse at h
  split at h
  · cases h
  · next fields hread =>
    cases h
    exact ⟨fields, hread, rfl⟩
  · cases h

/-- The tokens of a parsed file are authored in its version and format. -/
lemma authored_of_parse {content : String} {format : Format} {options : Options}
    {file : TokenFile} (h : parse content format options = .ok file) :
    ∀ t ∈ file.tokens, Authored ⟨options, file.version, format⟩ t := by
  obtain ⟨fields, -, rfl⟩ := parse_eq_ok h
  exact (authored_tokens _).1 _ _ _ _

/-! ## The address of the file -/

/-- What all tokens of a file share, with another address of the file. -/
def Context.withUri (u : String) (c : Context) : Context :=
  { c with options := { c.options with definitionUri := u } }

lemma nodeToken_withUri (u : String) (c : Context) (path : List String) (type : Option String)
    (spot : Spot) (node : Json.Value) :
    nodeToken (c.withUri u) path type spot node = (nodeToken c path type spot node).withUri u :=
  rfl

lemma groupHead_withUri (u : String) (c : Context) (path : List String) (type : Option String)
    (spot : Spot) (group : Json.Value) :
    groupHead (c.withUri u) path type spot group =
      (groupHead c path type spot group).map (Token.withUri u) := by
  have hmarker : extendsMarker (c.withUri u) path spot group =
      (extendsMarker c path spot group).map (Token.withUri u) := by
    unfold extendsMarker
    cases group.stringAt? extendsKey with
    | none => rfl
    | some target => rfl
  have hroot : rootToken (c.withUri u) path type spot group =
      (rootToken c path type spot group).map (Token.withUri u) := by
    unfold rootToken
    split
    · split_ifs
      · rfl
      · rfl
    · rfl
  have hversion : (c.withUri u).version = c.version := rfl
  unfold groupHead
  rw [hversion, hmarker, hroot]
  split_ifs
  · rw [List.map_append]
  · rfl

/-- The tokens of a group differ only in the address. -/
lemma tokens_withUri (u : String) (c : Context) :
    (∀ path type spot v, groupTokens (c.withUri u) path type spot v =
        (groupTokens c path type spot v).map (Token.withUri u)) ∧
      ∀ path type spot fields, childTokens (c.withUri u) path type spot fields =
        (childTokens c path type spot fields).map (Token.withUri u) := by
  apply groupTokens.mutual_induct c
    (fun path type spot v => groupTokens (c.withUri u) path type spot v =
      (groupTokens c path type spot v).map (Token.withUri u))
    (fun path type spot fields => childTokens (c.withUri u) path type spot fields =
      (childTokens c path type spot fields).map (Token.withUri u))
  · intro path type spot fields ih
    rw [groupTokens, groupTokens, groupHead_withUri, ih, List.map_append]
  · intro v path type spot hv
    rw [groupTokens, groupTokens]
    · rfl
    · exact hv
    · exact hv
  · intro path type spot
    rw [childTokens, childTokens]
    rfl
  · intro path type spot key fields rest ihGroup ihRest
    rw [childTokens, childTokens, ihRest, List.map_append]
    congr 1
    -- Format and group markers are the same, so both take the same branch.
    have hformat : (c.withUri u).format = c.format := rfl
    have hmarkers : (c.withUri u).options.groupMarkers = c.options.groupMarkers := rfl
    simp only at ihGroup
    simp only [hformat, hmarkers, nodeToken_withUri, ihGroup]
    split_ifs
    · rfl
    · rfl
    · rfl
    · rfl
    · rfl
  · intro path type spot key v rest hv ih
    rw [childTokens, childTokens]
    · exact ih
    · exact hv
    · exact hv

/-- Reading a text under another address of its file. -/
lemma parse_withUri (u : String) (content : String) (format : Format) (options : Options) :
    parse content format { options with definitionUri := u } =
      (parse content format options).map fun file =>
        { file with tokens := file.tokens.map (Token.withUri u) } := by
  unfold parse
  cases readDocument format content with
  | error e => rfl
  | ok doc =>
    cases doc with
    | object fields =>
      have htokens := (tokens_withUri u ⟨options, Version.detect (.object fields) options.version,
        format⟩).1 [] none (.start content.toList) (.object fields)
      exact congrArg (fun tokens => Except.ok (TokenFile.mk _ tokens)) htokens
    | null => rfl
    | bool b => rfl
    | number n => rfl
    | string s => rfl
    | array items => rfl

end TokenFile

end DesignTokens
