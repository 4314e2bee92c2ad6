import DesignTokens.Proofs.DeclaredTokens

/-!
# Types are inherited from the nearest declaration

A group and a node may declare a type. `NearestType` says which of the declarations along a path is
the nearest: the one at the longest beginning of the path that has any. A step of the walk through
a document goes from the nearest type of a group to that of its child (`NearestType.child`), so
every group is reached with the nearest type of its path (`Reached.nearestType`).

Hence the type of a token is the nearest one of its declaration's path (`nearest_type_of_parse`).
For a node that is its own type if it has one. A group's own token is written below the group, under
a key of its own, and what is declared there plays no part (`root_type_ignored`).
-/

namespace DesignTokens.TokenFile

open Json (Value Fields)

/-- The type that is declared at a path. -/
def typeAt? (doc : Value) (path : List String) : Option String :=
  (doc.at? path).bind (Value.stringAt? "$type")

/-- The type that is declared nearest to a path: at the longest beginning of it that declares one.
The document itself is no group. -/
inductive NearestType (doc : Value) (path : List String) : Option String → Prop
  | declared {lead : List String} {type : String} (ne_nil : lead ≠ []) (begins : lead <+: path)
      (typed : typeAt? doc lead = some type)
      (nearest : ∀ longer, lead <+: longer → longer <+: path → longer ≠ lead →
        typeAt? doc longer = none) :
      NearestType doc path (some type)
  | undeclared (untyped : ∀ lead, lead ≠ [] → lead <+: path → typeAt? doc lead = none) :
      NearestType doc path none

namespace NearestType

variable {doc : Value} {path : List String} {type : Option String}

/-- One key further, a type that is declared there is the nearest one, and else that from above. -/
lemma child (h : NearestType doc path type) (key : String) :
    NearestType doc (path ++ [key]) ((typeAt? doc (path ++ [key])).or type) := by
  cases hown : typeAt? doc (path ++ [key]) with
  | some own =>
    refine .declared (by simp) (List.prefix_refl _) hown fun longer hlead hlonger hne => ?_
    exact absurd (hlonger.eq_of_length_le hlead.length_le) hne
  | none =>
    cases h with
    | declared ne_nil begins typed nearest =>
      refine .declared ne_nil (begins.trans (List.prefix_append ..)) typed
        fun longer hlead hlonger hne => ?_
      rcases List.prefix_concat_iff.mp hlonger with rfl | hlonger
      · exact hown
      · exact nearest longer hlead hlonger hne
    | undeclared untyped =>
      refine .undeclared fun lead hne hlead => ?_
      rcases List.prefix_concat_iff.mp hlead with rfl | hlead
      · exact hown
      · exact untyped lead hne hlead

/-- What is declared at the path itself is nearest. -/
lemma eq_of_typeAt? {own : String} (h : NearestType doc path type) (hpath : path ≠ [])
    (hown : typeAt? doc path = some own) : type = some own := by
  cases h with
  | @declared lead type ne_nil begins typed nearest =>
    by_cases hlead : path = lead
    · rw [hlead] at hown
      exact typed.symm.trans hown
    · have hnone := nearest path begins (List.prefix_refl _) hlead
      rw [hown] at hnone
      cases hnone
  | undeclared untyped =>
    have hnone := untyped path hpath (List.prefix_refl _)
    rw [hown] at hnone
    cases hnone

/-- Going one key further changes nothing exactly if no other type is declared there. -/
lemma child_iff (h : NearestType doc path type) (key : String) :
    NearestType doc (path ++ [key]) type ↔
      ∀ own, typeAt? doc (path ++ [key]) = some own → type = some own := by
  constructor
  · intro hchild own hown
    exact hchild.eq_of_typeAt? (by simp) hown
  · intro hagree
    have hchild := h.child key
    cases hown : typeAt? doc (path ++ [key]) with
    | none =>
      rw [hown] at hchild
      exact hchild
    | some own =>
      rw [hown] at hchild
      rw [hagree own hown]
      exact hchild

end NearestType

/-! ## Types along the walk -/

/-- The type stated at a path is that of the node there. -/
lemma typeAt?_of_at? {doc node : Value} {path : List String} (h : doc.at? path = some node) :
    typeAt? doc path = node.stringAt? "$type" := by
  rw [typeAt?, h, Option.bind_some]

section Walk

variable {c : Context} {text : List Char} {doc : Fields}

/-- A group is reached with the nearest type of its path. -/
lemma Reached.nearestType (hdoc : (Value.object doc).Sorted) {path : List String}
    {type : Option String} {spot : Spot} {fields : Fields}
    (h : Reached c text doc path type spot fields) :
    NearestType (.object doc) path type := by
  induction h with
  | document =>
    refine .undeclared fun lead hne hlead => ?_
    exact absurd (List.prefix_nil.mp hlead) hne
  | @child path type spot fields inner key above mem ih =>
    have hinner := ((above.child mem).at?_eq hdoc).1
    rw [← typeAt?_of_at? hinner]
    exact ih.child key

/-- Where the object is that defines a token. -/
def Declaration.definition (d : Declaration) : List String :=
  match d.kind with
  | .root => d.path ++ ["$root"]
  | _ => d.path

/-- The type of a token that is no marker: the nearest one of its declaration's path. It is the
nearest one of its definition too unless a group's own token declares another. -/
def TypedBy (doc : Value) (d : Declaration) (t : Token) : Prop :=
  d.kind ≠ .extension →
    NearestType doc d.path t.tokenType ∧
      (NearestType doc d.definition t.tokenType ↔
        d.kind = .root → ∀ own, typeAt? doc d.definition = some own → t.tokenType = some own)

/-- A token that a declaration gives has the nearest type at or above it. -/
lemma Gives.typedBy (hdoc : (Value.object doc).Sorted) {d : Declaration} {t : Token}
    (h : Gives c text doc d t) : TypedBy (.object doc) d t := by
  intro hkind
  cases h with
  | node above mem _ =>
    -- A child is reached like a group, whether it is one or not.
    have hnearest := (above.child mem).nearestType hdoc
    refine ⟨hnearest, fun _ hroot => ?_, fun _ => hnearest⟩
    cases hroot
  | extension => exact absurd rfl hkind
  | root reached _ _ =>
    have hnearest := reached.nearestType hdoc
    refine ⟨hnearest, ?_⟩
    exact (hnearest.child_iff "$root").trans ⟨fun h _ => h, fun h => h rfl⟩

end Walk

/-- In every file that is read, the tokens are those that the document declares, one by one and in
the order of the tree, and a token that is no marker has the nearest type of its declaration's
path: its own type if it is a node that has one, else that of the innermost group on the way to it
that has one. Only the type that a group's own token declares for itself is passed over. -/
theorem nearest_type_of_parse {content : String} {format : Format} {options : Options}
    {file : TokenFile} (hparse : parse content format options = .ok file) :
    ∃ fields declarations,
      readDocument format content = .ok (.object fields) ∧
      declarations.Pairwise Declaration.Before ∧
      (∀ d, d ∈ declarations ↔ Declared ⟨options, file.version, format⟩ (.object fields) d) ∧
      List.Forall₂ (Declares ⟨options, file.version, format⟩ (.object fields)) declarations
        file.tokens ∧
      List.Forall₂ (TypedBy (.object fields)) declarations file.tokens := by
  obtain ⟨fields, hread, rfl⟩ := parse_eq_ok hparse
  have hsorted := sorted_readDocument hread
  let c : Context := ⟨options, Version.detect (.object fields) options.version, format⟩
  refine ⟨fields, fieldDeclarations c fields, hread, pairwise_fieldDeclarations c hsorted rfl,
    mem_fieldDeclarations c hsorted rfl, declares_groupTokens c _ hsorted, ?_⟩
  exact (gives_groupTokens c _ hsorted).imp fun _ _ hgives => hgives.typedBy hsorted

/-- A group with a type, in it one whose type is no string, a token that is a group too because of
its key and has a type of its own, a token below that, and the token of the group itself. -/
def typedText : String :=
  "\x7b\"g\":\x7b\"$type\":\"color\",\"$root\":\x7b\"$value\":\"0\"\x7d,\"$extends\":\"b\"," ++
    "\"h\":\x7b\"$type\":true,\"_\":\x7b\"$value\":\"1\",\"$type\":\"size\"," ++
    "\"x\":\x7b\"$value\":\"2\"\x7d\x7d,\"y\":\x7b\"$value\":\"3\"\x7d\x7d\x7d\x7d"

/-- The fields of that document. -/
def typedFields : Fields :=
  [("g", .object [("$extends", .string "b"), ("$root", .object [("$value", .string "0")]),
    ("$type", .string "color"),
    ("h", .object [("$type", .bool true),
      ("_", .object [("$type", .string "size"), ("$value", .string "1"),
        ("x", .object [("$value", .string "2")])]),
      ("y", .object [("$value", .string "3")])])])]

lemma parse_typedText :
    parse typedText .json {} = .ok (ofDocument (.object typedFields) typedText .json {}) := by
  have hread : readDocument .json typedText = .ok (.object typedFields) := by cbv
  rw [parse, hread]

example : (ofDocument (.object typedFields) typedText .json {}).tokens.map Token.tokenType =
    [none, some "color", some "size", some "size", some "color"] := by
  decide +kernel

theorem nearest_type_of_parse_typed :
    parse typedText .json {} = .ok (ofDocument (.object typedFields) typedText .json {}) ∧
    ∃ fields declarations,
      readDocument .json typedText = .ok (.object fields) ∧
      declarations.Pairwise Declaration.Before ∧
      (∀ d, d ∈ declarations ↔
        Declared ⟨{}, (ofDocument (.object typedFields) typedText .json {}).version, .json⟩
          (.object fields) d) ∧
      List.Forall₂
        (Declares ⟨{}, (ofDocument (.object typedFields) typedText .json {}).version, .json⟩
          (.object fields))
        declarations (ofDocument (.object typedFields) typedText .json {}).tokens ∧
      List.Forall₂ (TypedBy (.object fields)) declarations
        (ofDocument (.object typedFields) typedText .json {}).tokens :=
  ⟨parse_typedText, nearest_type_of_parse parse_typedText⟩

/-- A group's own token that declares a type other than its group's. -/
def rootTypedText : String :=
  "\x7b\"b\":\x7b\"$extends\":\"c\",\"$type\":\"color\",\"$root\":\x7b\"$value\":\"4px\"," ++
    "\"$type\":\"dimension\"\x7d\x7d\x7d"

/-- The fields of that document. -/
def rootTypedFields : Fields :=
  [("b", .object [("$extends", .string "c"),
    ("$root", .object [("$type", .string "dimension"), ("$value", .string "4px")]),
    ("$type", .string "color")])]

/-- The type that a group's own token declares for itself is not its type. -/
theorem root_type_ignored :
    ∃ file t, parse rootTypedText .json {} = .ok file ∧ t ∈ file.tokens ∧
      Declared ⟨{}, file.version, .json⟩ (.object rootTypedFields) ⟨["b"], .root⟩ ∧
      Declares ⟨{}, file.version, .json⟩ (.object rootTypedFields) ⟨["b"], .root⟩ t ∧
      typeAt? (.object rootTypedFields) ["b", "$root"] = some "dimension" ∧
      t.tokenType = some "color" ∧
      ¬ NearestType (.object rootTypedFields) ["b", "$root"] t.tokenType := by
  have hread : readDocument .json rootTypedText = .ok (.object rootTypedFields) := by cbv
  have hparse : parse rootTypedText .json {} =
      .ok (ofDocument (.object rootTypedFields) rootTypedText .json {}) := by
    rw [parse, hread]
  have hsorted := sorted_readDocument hread
  let c : Context := ⟨{}, Version.detect (.object rootTypedFields) none, .json⟩
  have hlist : fieldDeclarations c rootTypedFields = [⟨["b"], .extension⟩, ⟨["b"], .root⟩] := by
    decide
  have htypes : (groupTokens c [] none (.start rootTypedText.toList)
      (.object rootTypedFields)).map Token.tokenType = [none, some "color"] := by
    decide +kernel
  have hown : typeAt? (.object rootTypedFields) ["b", "$root"] = some "dimension" := by decide
  have hdeclares := declares_groupTokens c rootTypedText.toList hsorted
  rw [hlist] at hdeclares
  -- Two declarations, so two tokens, and the second is the group's own.
  obtain ⟨marker, rest, -, hdeclares, htokens⟩ := List.forall₂_cons_left_iff.mp hdeclares
  obtain ⟨t, _, hroot, -, rfl⟩ := List.forall₂_cons_left_iff.mp hdeclares
  rw [htokens, List.map_cons, List.map_cons, List.cons.injEq, List.cons.injEq] at htypes
  have htype : t.tokenType = some "color" := htypes.2.1
  refine ⟨_, t, hparse, ?_, ?_, hroot, hown, htype, ?_⟩
  · change t ∈ groupTokens c [] none (.start rootTypedText.toList) (.object rootTypedFields)
    simp [htokens]
  · exact (mem_fieldDeclarations c hsorted rfl _).mp (by simp [hlist])
  · intro hnearest
    have hsame := hnearest.eq_of_typeAt? (by simp) hown
    rw [htype] at hsame
    exact absurd hsame (by decide)

end DesignTokens.TokenFile
