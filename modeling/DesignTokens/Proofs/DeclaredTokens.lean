import DesignTokens.Proofs.DocumentWalk

/-!
# A token file has the tokens that its document declares

Reading a token file gives one token for each declaration of its document, in the order of the tree
and with what is written there (`Declares`): `parse_declared`. The walk through the document says
how each token is given (`Gives`), so there is one case for each way (`Gives.declares`).
-/

namespace DesignTokens

namespace TokenFile

open Json (Value Fields)

/-- The value that is meant by a written one: outside of the draft version, the pointer that an
object has under `$ref`. -/
def meantValue (version : Version) (v : Value) : Value :=
  if version = .draft then v
  else
    match v.stringAt? "$ref" with
    | some pointer => .string pointer
    | none => v

/-- The token of a declaration. -/
structure Declares (c : Context) (doc : Value) (d : Declaration) (t : Token) : Prop where
  path_eq : t.path = d.tokenPath
  name_eq : t.name = Text.join "-" d.tokenPath
  version_eq : t.version = c.version
  filePath_eq : t.filePath = c.options.filePath
  definitionUri_eq : t.definitionUri = c.options.definitionUri
  cssPrefix_eq : t.cssPrefix = c.options.cssPrefix
  value_eq : ∃ v, d.written? doc = some v ∧ t.ownValue = meantValue c.version v

/-- A token is made of the value that is meant by the written one. -/
lemma getD_valueText (version : Version) (v : Value) :
    (valueText version v).2.getD (.string (valueText version v).1) = meantValue version v := by
  cases v with
  | object fields =>
    rw [valueText, meantValue]
    by_cases hdraft : version = .draft
    · simp [hdraft]
    · cases (Value.object fields).stringAt? "$ref" with
      | none => simp [hdraft]
      | some pointer => simp [hdraft]
  | _ => simp [valueText, meantValue, Value.stringAt?, Value.get?]

/-- A node with a value gives the token of its declaration. -/
lemma declares_nodeToken (c : Context) {doc node v : Value} {d : Declaration}
    (hkind : d.kind ≠ .extension) (hwritten : d.written? doc = some v)
    (hvalue : node.get? "$value" = some v) (type : Option String) (spot : Spot) :
    Declares c doc d (nodeToken c d.path type spot node) := by
  have hpath : d.tokenPath = d.path := by
    obtain ⟨path, kind⟩ := d
    cases kind with
    | extension => exact absurd rfl hkind
    | node => rfl
    | root => rfl
  refine ⟨hpath.symm, by rw [hpath]; rfl, rfl, rfl, rfl, rfl, v, hwritten, ?_⟩
  rw [← getD_valueText]
  simp only [Token.ownValue, nodeToken, hvalue, Option.getD_some]

/-- What is written at a path is what is written in the group there. -/
lemma written?_of_at? {doc group : Value} {path : List String} (h : doc.at? path = some group)
    (kind : DeclarationKind) :
    (⟨path, kind⟩ : Declaration).written? doc = group.at? kind.keys := by
  rw [Declaration.written?, Value.at?_append, h]
  rfl

/-- The token that the walk gives for a declaration is the token of the declaration. -/
lemma Gives.declares {c : Context} {text : List Char} {doc : Fields}
    (hdoc : (Value.object doc).Sorted) {d : Declaration} {t : Token} (h : Gives c text doc d t) :
    Declares c (.object doc) d t := by
  cases h with
  | node above mem valued =>
    obtain ⟨hat, -⟩ := (above.child mem).at?_eq hdoc
    obtain ⟨v, hv⟩ := Option.isSome_iff_exists.mp valued
    refine declares_nodeToken c (by simp) ?_ hv _ _
    rw [written?_of_at? hat, DeclarationKind.keys, Value.at?_singleton, hv]
  | extension reached _ stated =>
    obtain ⟨hat, -⟩ := reached.at?_eq hdoc
    obtain ⟨v, hv, hstring⟩ := Option.bind_eq_some_iff.mp stated
    have hwritten := written?_of_at? hat .extension
    rw [DeclarationKind.keys, Value.at?_singleton] at hwritten
    cases v with
    | string s =>
      cases hstring
      refine ⟨rfl, rfl, rfl, rfl, rfl, rfl, _, hwritten.trans hv, ?_⟩
      simp [Token.ownValue, bareToken, meantValue, Value.stringAt?, Value.get?]
    | _ => cases hstring
  | root reached stated valued =>
    obtain ⟨hat, -⟩ := reached.at?_eq hdoc
    obtain ⟨v, hv⟩ := Option.isSome_iff_exists.mp valued
    have hwritten := written?_of_at? hat .root
    rw [rootKey] at stated
    rw [DeclarationKind.keys, Value.at?, stated, Option.bind_some, Value.at?_singleton, hv]
      at hwritten
    exact declares_nodeToken c (by simp) hwritten hv _ _

/-- The tokens of a document are those that it declares, one by one. -/
lemma declares_groupTokens (c : Context) (text : List Char) {fields : Fields}
    (hsorted : (Value.object fields).Sorted) :
    List.Forall₂ (Declares c (.object fields)) (fieldDeclarations c fields)
      (groupTokens c [] none (.start text) (.object fields)) :=
  (gives_groupTokens c text hsorted).imp fun _ _ hgives => hgives.declares hsorted

/-- A file whose document is an object has one token for each declaration of the document, in the
order of the tree and with what is written there. -/
theorem parse_declared {content : String} {format : Format} {options : Options} {fields : Fields}
    (hread : readDocument format content = .ok (.object fields)) :
    ∃ declarations tokens,
      parse content format options =
        .ok ⟨Version.detect (.object fields) options.version, tokens⟩ ∧
      declarations.Pairwise Declaration.Before ∧
      (∀ d, d ∈ declarations ↔
        Declared ⟨options, Version.detect (.object fields) options.version, format⟩
          (.object fields) d) ∧
      List.Forall₂
        (Declares ⟨options, Version.detect (.object fields) options.version, format⟩
          (.object fields))
        declarations tokens := by
  have hsorted := sorted_readDocument hread
  let c : Context := ⟨options, Version.detect (.object fields) options.version, format⟩
  refine ⟨fieldDeclarations c fields,
    groupTokens c [] none (.start content.toList) (.object fields), ?_,
    pairwise_fieldDeclarations c hsorted rfl, mem_fieldDeclarations c hsorted rfl, ?_⟩
  · rw [parse, hread]
    rfl
  · exact declares_groupTokens c content.toList hsorted

/-- A group that extends another and has its own token, a token that is a group too because of its
key, and one that is not. -/
def groupedText : String :=
  "\x7b\"g\":\x7b\"$extends\":\"b\",\"$root\":\x7b\"$value\":true\x7d,\"_\":\x7b\"$value\":" ++
    "\x7b\"$ref\":\"#/b\"\x7d,\"x\":\x7b\"$value\":\"2\"\x7d\x7d\x7d,\"b\":\x7b\"$value\":\"1\"," ++
    "\"c\":\x7b\"$value\":\"3\"\x7d\x7d\x7d"

/-- The fields of that document. -/
def groupedFields : Fields :=
  [("b", .object [("$value", .string "1"), ("c", .object [("$value", .string "3")])]),
    ("g", .object [("$extends", .string "b"), ("$root", .object [("$value", .bool true)]),
      ("_", .object [("$value", .object [("$ref", .string "#/b")]),
        ("x", .object [("$value", .string "2")])])])]

theorem parse_declared_grouped :
    readDocument .json groupedText = .ok (.object groupedFields) ∧
    ∃ declarations tokens,
      parse groupedText .json {} =
        .ok ⟨Version.detect (.object groupedFields) none, tokens⟩ ∧
      declarations.Pairwise Declaration.Before ∧
      (∀ d, d ∈ declarations ↔
        Declared ⟨{}, Version.detect (.object groupedFields) none, .json⟩
          (.object groupedFields) d) ∧
      List.Forall₂
        (Declares ⟨{}, Version.detect (.object groupedFields) none, .json⟩
          (.object groupedFields))
        declarations tokens := by
  have hread : readDocument .json groupedText = .ok (.object groupedFields) := by cbv
  exact ⟨hread, parse_declared hread⟩

example : (fieldDeclarations ⟨{}, .v2025_10, .json⟩ groupedFields) =
    [⟨["b"], .node⟩, ⟨["g"], .extension⟩, ⟨["g"], .root⟩, ⟨["g", "_"], .node⟩,
      ⟨["g", "_", "x"], .node⟩] := by
  decide

end TokenFile

end DesignTokens
