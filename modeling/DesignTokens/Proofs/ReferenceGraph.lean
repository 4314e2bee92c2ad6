import DesignTokens.Proofs.TopologicalOrder
import DesignTokens.Resolution

/-!
# The graph of the references in a batch

`Graph.ofTokens` records that a name depends on another exactly if some token with the first name
refers to the second (`dependsOn_ofTokens`). Of the references of a token at most one is followed
when the token is resolved (`Resolution.link?`); it is among those that the graph records
(`link_mem_dependencies`), so an order of the graph has its target first.
-/

namespace DesignTokens

/-! ## Pointers and repeated names -/

lemma Text.dropStart?_eq_some {start cs rest : List Char} :
    Text.dropStart? start cs = some rest ↔ cs = start ++ rest := by
  induction start generalizing cs with
  | nil => simp [Text.dropStart?]
  | cons a start ih =>
    cases cs with
    | nil => simp [Text.dropStart?]
    | cons c cs =>
      by_cases hac : a = c
      · simp [Text.dropStart?, hac, ih]
      · simp [Text.dropStart?, hac, Ne.symm hac]

/-- The path of a pointer is what follows the number sign and the first slash. -/
lemma Reference.pointerPath?_eq_some {value path : String} :
    Reference.pointerPath? value = some path ↔ value = "#/" ++ path := by
  simp only [Reference.pointerPath?, Text.afterStart?, Option.map_eq_some_iff,
    Text.dropStart?_eq_some]
  constructor
  · rintro ⟨rest, hvalue, rfl⟩
    have hrest : (String.ofList rest).toList = rest := String.toList_ofList
    rw [← String.toList_inj, String.toList_append, hrest, hvalue]
  · rintro rfl
    exact ⟨path.toList, String.toList_append, String.ofList_toList⟩

/-- The distinct names are those that were not seen. -/
lemma Reference.mem_distinct {seen names : List String} {n : String} :
    n ∈ Reference.distinct seen names ↔ n ∈ names ∧ n ∉ seen := by
  induction names generalizing seen with
  | nil => simp [Reference.distinct]
  | cons s rest ih =>
    by_cases hs : s ∈ seen
    · rw [Reference.distinct, if_pos hs, ih, List.mem_cons]
      constructor
      · exact fun ⟨hn, hseen⟩ => ⟨.inr hn, hseen⟩
      · rintro ⟨rfl | hn, hseen⟩
        · exact absurd hs hseen
        · exact ⟨hn, hseen⟩
    · rw [Reference.distinct, if_neg hs, List.mem_cons, List.mem_cons, ih, List.mem_cons]
      by_cases hns : n = s
      · simp [hns, hs]
      · simp [hns]

/-! ## What a token refers to -/

/-- A token refers to `n` if its text holds a reference to it, as its version reads references. -/
lemma Token.mem_dependencies {t : Token} {version : Version} {n : String} :
    n ∈ t.dependencies version ↔
      t.rawValue = none ∧ ∃ r ∈ Reference.extract t.value version, r.tokenName = n := by
  unfold Token.dependencies Token.referenceText?
  cases hraw : t.rawValue with
  | none => simp [Reference.mem_distinct]
  | some v => simp

/-- Some token named `a` has a reference to `b`, under the version that counts for it. -/
def RefersTo (tokens : List Token) (version : Version) (a b : String) : Prop :=
  ∃ t ∈ tokens, t.name = a ∧ t.rawValue = none ∧
    ∃ r ∈ Reference.extract t.value (t.effectiveVersion version), r.tokenName = b

/-- A name refers to what its tokens depend on, each in its own version. -/
lemma refersTo_iff {tokens : List Token} {version : Version} {a b : String} :
    RefersTo tokens version a b ↔
      ∃ t ∈ tokens, t.name = a ∧ b ∈ t.dependencies (t.effectiveVersion version) := by
  simp only [RefersTo, Token.mem_dependencies]

namespace Graph

/-- The edits that make the graph of a batch: the tokens first, then their references. -/
def editsOf (tokens : List Token) (version : Version) : List Edit :=
  tokens.map (fun t => .node t.name) ++
    tokens.flatMap fun t =>
      (t.dependencies (t.effectiveVersion version)).map fun target => .dependency t.name target

/-- The graph of a batch is built by one edit for each token and each reference. -/
lemma ofTokens_eq_build (tokens : List Token) (version : Version) :
    ofTokens tokens version = build (editsOf tokens version) := by
  rw [build, editsOf, List.foldl_append, List.foldl_map, List.foldl_flatMap]
  simp only [List.foldl_map]
  rfl

/-- A change of the tokens that keeps their names and references keeps the graph. -/
lemma ofTokens_map (f : Token → Token) {version : Version} (hname : ∀ t, (f t).name = t.name)
    (hdependencies : ∀ t, (f t).dependencies ((f t).effectiveVersion version)
      = t.dependencies (t.effectiveVersion version)) (tokens : List Token) :
    ofTokens (tokens.map f) version = ofTokens tokens version := by
  unfold ofTokens
  simp only [List.foldl_map, hname, hdependencies]

/-- The graph of a batch records the references between its tokens. -/
lemma dependsOn_ofTokens {tokens : List Token} {version : Version} {a b : String} :
    (ofTokens tokens version).DependsOn a b ↔ RefersTo tokens version a b := by
  rw [ofTokens_eq_build, dependsOn_build, refersTo_iff, editsOf, List.mem_append, List.mem_flatMap]
  constructor
  · rintro (h | ⟨t, ht, h⟩)
    · simp at h
    · obtain ⟨target, htarget, heq⟩ := List.mem_map.mp h
      cases heq
      exact ⟨t, ht, rfl, htarget⟩
  · rintro ⟨t, ht, rfl, hb⟩
    exact .inr ⟨t, ht, List.mem_map.mpr ⟨b, hb, rfl⟩⟩

/-- The dependencies in the graph of a batch are its references. -/
lemma dependsOn_ofTokens_eq {tokens : List Token} {version : Version} :
    (ofTokens tokens version).DependsOn = RefersTo tokens version := by
  funext a b
  exact propext dependsOn_ofTokens

/-- An order of the graph has the names that are referred to first. -/
lemma targetsFirst_of_order {tokens : List Token} {version : Version} {names : List String}
    (h : (ofTokens tokens version).order = .ok names) :
    TargetsFirst (RefersTo tokens version) [] names :=
  dependsOn_ofTokens_eq ▸ (isOrder_of_order h).2.targetsFirst

/-- Every token of a batch is in its graph. -/
lemma name_mem_nodes_ofTokens {tokens : List Token} {version : Version} {t : Token}
    (ht : t ∈ tokens) : t.name ∈ (ofTokens tokens version).nodes := by
  rw [ofTokens_eq_build, mem_nodes_build]
  refine ⟨.node t.name, ?_, List.mem_singleton_self _⟩
  exact List.mem_append_left _ (List.mem_map.mpr ⟨t, ht, rfl⟩)

end Graph

/-- Whether references lead back to a name is decided by the search of the graph. -/
instance (tokens : List Token) (version : Version) : Decidable (Cyclic (RefersTo tokens version)) :=
  decidable_of_iff ((Graph.ofTokens tokens version).findCycle ≠ none) (by
    rw [Ne, Graph.findCycle_eq_none, not_not, Graph.dependsOn_ofTokens_eq])

namespace Resolution

/-- A reference that is followed. -/
structure Link where
  /-- The name of the token that is meant. -/
  name : String
  /-- The reference as errors show it. -/
  written : String
deriving DecidableEq, Repr

/-- The reference of a token that is followed, if there is one: the one in braces that is all of
the token's text, or the pointer that a text without braces is outside of the draft version. -/
def link? (version : Version) (t : Token) : Option Link :=
  if t.rawValue.isSome then none
  else
    match Reference.wholePath? t.value with
    | some path => some ⟨Reference.dottedToName path, path⟩
    | none =>
      if Reference.curlyPaths t.value = [] ∧ t.effectiveVersion version ≠ .draft then
        (Reference.pointerPath? t.value).map fun path => ⟨Reference.slashedToName path, t.value⟩
      else none

lemma wholePath?_eq_none_of_curlyPaths {value : String} (h : Reference.curlyPaths value = []) :
    Reference.wholePath? value = none := by
  rw [Reference.wholePath?, h]

lemma curlyPaths_of_wholePath? {value path : String} (h : Reference.wholePath? value = some path) :
    Reference.curlyPaths value = [path] := by
  unfold Reference.wholePath? at h
  split at h
  · next p hp =>
    simp only [Option.ite_none_right_eq_some, Option.some.injEq] at h
    rw [hp, h.2]
  · cases h

/-- The value of a token is read off the target of its link, or is its own. -/
lemma resolvedValue_eq (t : Token) (find : String → Option Token) (version : Version) :
    resolvedValue t find (t.effectiveVersion version) =
      match link? version t with
      | some l => dereference find l.name l.written
      | none => .ok t.ownValue := by
  unfold resolvedValue link? Token.referenceText?
  cases hraw : t.rawValue with
  | some v => simp
  | none =>
    have hown : t.ownValue = .string t.value := by simp [Token.ownValue, hraw]
    by_cases hcurly : Reference.curlyPaths t.value = []
    · -- Without braces only a pointer can be followed.
      have hwhole := wholePath?_eq_none_of_curlyPaths hcurly
      by_cases hdraft : t.effectiveVersion version = .draft
      · simp [hcurly, hwhole, hdraft]
      · cases hpath : Reference.pointerPath? t.value <;> simp [hcurly, hwhole, hdraft, hpath]
    · cases hwhole : Reference.wholePath? t.value with
      | some path => simp [hcurly, hwhole]
      | none => simp [hcurly, hwhole, hown]

/-- The two kinds of reference that are followed. -/
lemma link?_eq_some {t : Token} {version : Version} {l : Link} :
    link? version t = some l ↔ t.rawValue = none ∧
      ((∃ path, Reference.wholePath? t.value = some path ∧
          l = ⟨Reference.dottedToName path, path⟩) ∨
        (Reference.curlyPaths t.value = [] ∧ t.effectiveVersion version ≠ .draft ∧
          ∃ path, t.value = "#/" ++ path ∧ l = ⟨Reference.slashedToName path, t.value⟩)) := by
  unfold link?
  cases hraw : t.rawValue with
  | some v => simp
  | none =>
    cases hwhole : Reference.wholePath? t.value with
    | some path =>
      have hcurly : Reference.curlyPaths t.value ≠ [] := by
        simp [curlyPaths_of_wholePath? hwhole]
      simp [hcurly, eq_comm]
    | none =>
      by_cases hpointer : Reference.curlyPaths t.value = [] ∧ t.effectiveVersion version ≠ .draft
      · simp [hpointer, Option.map_eq_some_iff, Reference.pointerPath?_eq_some, @eq_comm _ l]
      · simp only [Option.isSome_none, Bool.false_eq_true, if_false, hpointer]
        simp only [not_and, not_not] at hpointer
        simp +contextual [hpointer]

/-- What is followed is a reference of the token. -/
lemma link_mem_dependencies {t : Token} {version : Version} {l : Link}
    (h : link? version t = some l) : l.name ∈ t.dependencies (t.effectiveVersion version) := by
  rw [Token.mem_dependencies]
  obtain ⟨hraw, ⟨path, hwhole, rfl⟩ | ⟨hcurly, hdraft, path, hpath, rfl⟩⟩ := link?_eq_some.mp h
  · have hmem : (⟨.curly, path⟩ : Reference) ∈
        (Reference.curlyPaths t.value).map fun p => { kind := .curly, path := p } := by
      simp [curlyPaths_of_wholePath? hwhole]
    refine ⟨hraw, ⟨.curly, path⟩, ?_, rfl⟩
    unfold Reference.extract
    split_ifs
    · exact hmem
    · split
      · exact List.mem_append_left _ hmem
      · exact hmem
  · refine ⟨hraw, ⟨.pointer, path⟩, ?_, rfl⟩
    simp [Reference.extract, hdraft, Reference.pointerPath?_eq_some.mpr hpath]

end Resolution

end DesignTokens
