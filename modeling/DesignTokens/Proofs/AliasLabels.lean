import DesignTokens.Editor.Completion
import DesignTokens.Proofs.ParsedTokens
import DesignTokens.Proofs.Publication
import DesignTokens.Proofs.ReferenceSpelling
import DesignTokens.Proofs.VariableLookup
import Mathlib.Data.List.Permutation

/-!
# Labels of aliases

While an alias is typed, a token is offered under its dotted path, and that is what then stands
between the braces. The label is the path joined with points and the name is the path joined with
hyphens. Reading the label back turns points into hyphens. This leads to the name of the token
unless a key spoils it, and there is no other way to write such a key:

* a point in a key is taken for the end of the key, a closing brace for the end of the reference,
  and blanks around the label are dropped (`exists_extract_braced_iff`);
* a name that starts with two hyphens is taken for a CSS variable, unless its token has no file
  (`exists_find?_label_iff`).

`label_refers_back_iff` puts both together for the tokens of a file.
-/

namespace DesignTokens

namespace Text

/-! ## Joined texts -/

/-- A character that is not in the separator is in a joined text if it is in a piece. -/
lemma mem_toList_join_iff (sep : String) {c : Char} (hc : c ∉ sep.toList) (pieces : List String) :
    c ∈ (join sep pieces).toList ↔ ∃ s ∈ pieces, c ∈ s.toList := by
  induction pieces with
  | nil => simp [join]
  | cons s pieces ih =>
    cases pieces with
    | nil => simp [join]
    | cons t rest => simp only [join, String.toList_append, List.mem_append, ih, hc, or_false,
        List.exists_mem_cons_iff]

lemma length_join_congr {sep sep' : String} (h : sep.length = sep'.length) (pieces : List String) :
    (join sep pieces).length = (join sep' pieces).length := by
  induction pieces with
  | nil => rfl
  | cons s pieces ih =>
    cases pieces with
    | nil => rfl
    | cons t rest => rw [join, join, String.length_append, String.length_append,
        String.length_append, String.length_append, h, ih]

/-! ## Trimmed texts -/

lemma trimStart_sublist (cs : List Char) : (trimStart cs).Sublist cs :=
  List.dropWhile_sublist _

lemma trimEnd_sublist (cs : List Char) : (trimEnd cs).Sublist cs := by
  have h := (List.dropWhile_sublist isBlank (l := cs.reverse)).reverse
  rwa [List.reverse_reverse] at h

lemma trimChars_sublist (cs : List Char) : (trimChars cs).Sublist cs :=
  (trimEnd_sublist _).trans (trimStart_sublist cs)

/-- A text that starts with a blank gets shorter when blanks are dropped from the front. -/
lemma isBlank_head?_of_trimStart_eq {cs : List Char} (h : trimStart cs = cs) :
    ∀ c ∈ cs.head?, isBlank c = false := by
  cases cs with
  | nil => simp
  | cons c cs =>
    intro d hd
    cases hd
    by_contra hblank
    rw [Bool.not_eq_false] at hblank
    have hlength := (trimStart_sublist cs).length_le
    have hdrop : trimStart (c :: cs) = trimStart cs := List.dropWhile_cons_of_pos hblank
    rw [← hdrop, h, List.length_cons] at hlength
    omega

/-- Trimming leaves only texts as they are that have no blanks at their ends. -/
lemma unspaced_of_trimChars_eq {s : String} (h : trimChars s.toList = s.toList) : Unspaced s := by
  have hstart : trimStart s.toList = s.toList := by
    have hsub := trimEnd_sublist (trimStart s.toList)
    rw [← trimChars, h] at hsub
    exact (trimStart_sublist _).antisymm hsub
  have hend : trimStart s.toList.reverse = s.toList.reverse := by
    rw [trimChars, hstart, trimEnd, ← trimStart] at h
    rw [← List.reverse_eq_iff, h]
  refine ⟨isBlank_head?_of_trimStart_eq hstart, fun c hc => ?_⟩
  exact isBlank_head?_of_trimStart_eq hend c (by rwa [List.head?_reverse])

end Text

namespace Reference

/-! ## Labels in braces -/

/-- The characters of a name that is read from a dotted path. -/
lemma of_mem_dottedToName {path : String} {c : Char} (h : c ∈ (dottedToName path).toList) :
    c ≠ '.' ∧ (c = '-' ∨ c ∈ path.toList) := by
  rw [dottedToName, Text.replaceChar, String.toList_ofList, List.mem_map] at h
  obtain ⟨d, hd, rfl⟩ := h
  split_ifs with hdot
  · exact ⟨by decide, .inl rfl⟩
  · exact ⟨hdot, .inr hd⟩

lemma length_dottedToName (path : String) : (dottedToName path).length = path.length := by
  rw [← String.length_toList, ← String.length_toList, dottedToName, Text.replaceChar,
    String.toList_ofList, List.length_map]

lemma dottedToName_eq_self {path : String} (h : '.' ∉ path.toList) : dottedToName path = path := by
  have hself : ∀ c ∈ path.toList, (if c = '.' then '-' else c) = id c := by
    intro c hc
    have hne : c ≠ '.' := fun heq => h (heq ▸ hc)
    exact if_neg hne
  rw [dottedToName, Text.replaceChar, List.map_congr_left hself, List.map_id, String.ofList_toList]

/-- A label is read as the name if no key has a point. -/
lemma dottedToName_join {keys : List String} (h : ∀ key ∈ keys, '.' ∉ key.toList) :
    dottedToName (Text.join "." keys) = Text.join "-" keys := by
  induction keys with
  | nil => rfl
  | cons key keys ih =>
    obtain ⟨hfirst, hrest⟩ := List.forall_mem_cons.mp h
    cases keys with
    | nil => exact dottedToName_eq_self hfirst
    | cons key' rest =>
      have happend : ∀ s t : String, dottedToName (s ++ t) = dottedToName s ++ dottedToName t := by
        intro s t
        simp [dottedToName, Text.replaceChar, String.toList_append, List.map_append]
      have hpoint : dottedToName "." = "-" := by decide
      rw [Text.join, Text.join, happend, happend, dottedToName_eq_self hfirst, hpoint,
        ih hrest]

/-- If a key has a point, nothing is read as the name. -/
lemma dottedToName_ne_join {keys : List String} (h : ∃ key ∈ keys, '.' ∈ key.toList)
    (path : String) : dottedToName path ≠ Text.join "-" keys := by
  intro heq
  have hmem := (Text.mem_toList_join_iff "-" (by decide) keys).mpr h
  rw [← heq] at hmem
  exact (of_mem_dottedToName hmem).1 rfl

/-- What stands between braces has no closing brace. -/
lemma closing_notMem_of_mem_braceGroups {inside : Option (List Char)} {cs group : List Char}
    (hinside : ∀ g ∈ inside, '}' ∉ g) (h : group ∈ braceGroups inside cs) : '}' ∉ group := by
  fun_induction braceGroups inside cs with
  | case1 => cases h
  | case2 cs ih => exact ih (by simp) h
  | case3 c cs hc ih => exact ih (by simp) h
  | case4 g c cs hc ih =>
    refine ih ?_ h
    simpa [Ne.symm hc] using hinside
  | case5 g c cs hc hempty ih => exact ih (by simp) h
  | case6 g c cs hc hempty ih =>
    rcases List.mem_cons.mp h with rfl | h
    · simpa using hinside
    · exact ih (by simp) h

/-- A reference in braces names no token with a closing brace in its name. -/
lemma closing_notMem_of_mem_curlyPaths {value path : String} (h : path ∈ curlyPaths value) :
    '}' ∉ (dottedToName path).toList := by
  obtain ⟨group, hgroup, rfl⟩ := List.mem_map.mp h
  intro hmem
  rcases (of_mem_dottedToName hmem).2 with heq | hmem
  · exact absurd heq (by decide)
  · rw [String.toList_ofList] at hmem
    exact closing_notMem_of_mem_braceGroups (by simp) hgroup
      ((Text.trimChars_sublist _).subset hmem)

/-- Whatever the version, the references in a text in braces are those in braces. -/
lemma extract_braced (path : String) (version : Version) :
    extract (braced path) version = (curlyPaths (braced path)).map fun p => ⟨.curly, p⟩ := by
  simp only [extract, pointerPath?_braced, ite_self]

/-- A label in braces is one reference to the name exactly if no key has a point or a closing brace
and the label is not empty and has no blanks around it. -/
lemma exists_extract_braced_iff (keys : List String) (version : Version) :
    (∃ r, extract (braced (Text.join "." keys)) version = [r] ∧ r.kind = .curly ∧
        r.tokenName = Text.join "-" keys) ↔
      (∀ key ∈ keys, '.' ∉ key.toList ∧ '}' ∉ key.toList) ∧ Text.join "." keys ≠ "" ∧
        Text.Unspaced (Text.join "." keys) := by
  rw [extract_braced]
  constructor
  · rintro ⟨r, hextract, -, hname⟩
    obtain ⟨path, hpath, rfl⟩ := List.map_eq_singleton_iff.mp hextract
    change dottedToName path = Text.join "-" keys at hname
    have hdot : ¬ ∃ key ∈ keys, '.' ∈ key.toList := fun h => dottedToName_ne_join h path hname
    have hclosing : ¬ ∃ key ∈ keys, '}' ∈ key.toList := by
      intro h
      have hmem := (Text.mem_toList_join_iff "-" (by decide) keys).mpr h
      rw [← hname] at hmem
      exact closing_notMem_of_mem_curlyPaths (hpath ▸ List.mem_singleton_self _) hmem
    have hlabel : '}' ∉ (Text.join "." keys).toList := fun h =>
      hclosing ((Text.mem_toList_join_iff "." (by decide) keys).mp h)
    have hne : Text.join "." keys ≠ "" := by
      intro hempty
      have hnone : curlyPaths (braced "") = [] := by decide
      rw [hempty, hnone] at hpath
      cases hpath
    refine ⟨fun key hkey => ⟨fun h => hdot ⟨key, hkey, h⟩, fun h => hclosing ⟨key, hkey, h⟩⟩, hne,
      Text.unspaced_of_trimChars_eq ?_⟩
    -- Trimming would make the label shorter than the name.
    rw [curlyPaths_braced hne hlabel, List.singleton_inj] at hpath
    have hlength : (Text.trim (Text.join "." keys)).length = (Text.join "." keys).length := by
      rw [hpath, ← length_dottedToName path, hname]
      exact Text.length_join_congr (by decide) keys
    refine (Text.trimChars_sublist _).eq_of_length ?_
    rwa [← String.length_toList, Text.trim, String.toList_ofList, ← String.length_toList] at hlength
  · rintro ⟨hkeys, hne, hunspaced⟩
    have hlabel : '}' ∉ (Text.join "." keys).toList := by
      rw [Text.mem_toList_join_iff "." (by decide)]
      rintro ⟨key, hkey, hmem⟩
      exact (hkeys key hkey).2 hmem
    rw [curlyPaths_braced hne hlabel, Text.trim, hunspaced.trimChars_eq, String.ofList_toList]
    exact ⟨_, rfl, rfl, dottedToName_join fun key hkey => (hkeys key hkey).1⟩

end Reference

namespace Registry

open Reference (dottedToName)

/-! ## Labels in the registry -/

/-- The name that a query means has no points. -/
lemma point_notMem_queryName (query : String) : '.' ∉ (queryName query).toList := by
  have hname : '.' ∉ (dottedToName query).toList := fun h => (Reference.of_mem_dottedToName h).1 rfl
  change '.' ∉ ((Text.afterStart? "--" (dottedToName query)).getD (dottedToName query)).toList
  rw [Text.afterStart?]
  cases hdrop : Text.dropStart? "--".toList (dottedToName query).toList with
  | none => exact hname
  | some rest =>
    rw [Text.dropStart?_eq_some.mp hdrop, List.mem_append, not_or] at hname
    simpa using hname.2

/-- How a token that is found fits its query. -/
lemma Valid.of_find?_eq_some {r : Registry} (h : Valid r) {query : String} {u : Token}
    (hfind : r.find? query = some u) :
    u ∈ r.toList ∧ (u.filePath = "" ∧ u.name = query ∨ u.name = queryName query ∨
      u.cssVariable = query) := by
  rw [h.find?_eq, Option.or_eq_some_iff, Option.or_eq_some_iff] at hfind
  rcases hfind with (hexact | ⟨-, hnamed⟩) | ⟨-, hvariable⟩
  · exact ⟨List.mem_of_find?_eq_some hexact, .inl (by simpa using List.find?_some hexact)⟩
  · exact ⟨List.mem_of_find?_eq_some hnamed, .inr (.inl (by simpa using List.find?_some hnamed))⟩
  · exact ⟨List.mem_of_find?_eq_some hvariable,
      .inr (.inr (by simpa using List.find?_some hvariable))⟩

/-- A name without points finds a token of that name in the tokens of a file exactly if it does not
look like a CSS variable or there is no file. -/
lemma exists_find?_name_iff {tokens : List Token} {file : String}
    (hfiles : ∀ s ∈ tokens, s.filePath = file) {t : Token} (ht : t ∈ tokens)
    (hdot : '.' ∉ t.name.toList) :
    (∃ u, (ofList tokens).find? t.name = some u ∧ u.name = t.name) ↔
      file = "" ∨ ¬ "--".toList <+: t.name.toList := by
  have hvalid := valid_ofList tokens
  have hself := queryName_eq_dottedToName_iff t.name
  rw [Reference.dottedToName_eq_self hdot] at hself
  rw [← hself]
  constructor
  · rintro ⟨u, hfind, hname⟩
    obtain ⟨hmem, hfits⟩ := hvalid.of_find?_eq_some hfind
    have hfile := hfiles u (of_last?_eq_some (mem_toList_ofList.mp hmem)).1
    rcases hfits with ⟨hnone, -⟩ | hmeant | hvariable
    · exact .inl (hfile.symm.trans hnone)
    · exact .inr (hmeant.symm.trans hname)
    · exact absurd (hvariable.trans hname.symm) u.cssVariable_ne_name
  · intro hcases
    -- The registry has a token of this file and name, if not the same one.
    obtain ⟨s, hs⟩ := exists_last?_of_mem ht
    obtain ⟨hmem, hkey⟩ := of_last?_eq_some hs
    obtain ⟨hfile, hname⟩ := Token.key_eq_iff.mp hkey
    have hstored : s ∈ (ofList tokens).toList := mem_toList_ofList.mpr (hkey ▸ hs)
    rw [hvalid.find?_eq]
    cases hexact : (ofList tokens).toList.find? fun s => s.filePath = "" ∧ s.name = t.name with
    | some u =>
      have hfits := List.find?_some hexact
      rw [decide_eq_true_eq] at hfits
      exact ⟨u, rfl, hfits.2⟩
    | none =>
      have hmeant : queryName t.name = t.name := by
        refine hcases.resolve_left fun hempty => ?_
        have hno := List.find?_eq_none.mp hexact s hstored
        exact hno (decide_eq_true ⟨(hfiles s hmem).trans hempty, hname⟩)
      rw [Option.none_or, hmeant]
      cases hnamed : (ofList tokens).toList.find? fun s => s.name = t.name with
      | some u => exact ⟨u, rfl, by simpa using List.find?_some hnamed⟩
      | none => exact absurd (decide_eq_true hname) (List.find?_eq_none.mp hnamed s hstored)

/-- The label of a token finds one of the same name among the tokens of its file exactly if no key
has a point and the name does not look like a CSS variable or there is no file. -/
lemma exists_find?_label_iff {tokens : List Token} {file : String}
    (hfiles : ∀ s ∈ tokens, s.filePath = file) {t : Token} (ht : t ∈ tokens)
    (hname : t.name = Text.join "-" t.path) :
    (∃ u, (ofList tokens).find? (dottedToName (Text.join "." t.path)) = some u ∧ u.name = t.name) ↔
      (∀ key ∈ t.path, '.' ∉ key.toList) ∧ (file = "" ∨ ¬ "--".toList <+: t.name.toList) := by
  by_cases hdot : ∃ key ∈ t.path, '.' ∈ key.toList
  · -- The name has a point, but the names that the label leads to have none.
    refine iff_of_false ?_ fun h => hdot.elim fun key hkey => h.1 key hkey.1 hkey.2
    rintro ⟨u, hfind, hu⟩
    have hpoint : '.' ∈ u.name.toList := by
      rw [hu, hname]
      exact (Text.mem_toList_join_iff "-" (by decide) _).mpr hdot
    rcases ((valid_ofList tokens).of_find?_eq_some hfind).2 with ⟨-, heq⟩ | heq | heq
    · exact (Reference.of_mem_dottedToName (heq ▸ hpoint)).1 rfl
    · exact point_notMem_queryName _ (heq ▸ hpoint)
    · obtain ⟨start, hstart⟩ := u.exists_cssVariable_eq
      have hmem : '.' ∈ u.cssVariable.toList := by
        rw [hstart, String.toList_append]
        exact List.mem_append_right _ hpoint
      exact (Reference.of_mem_dottedToName (heq ▸ hmem)).1 rfl
  · have hkeys : ∀ key ∈ t.path, '.' ∉ key.toList := fun key hkey h => hdot ⟨key, hkey, h⟩
    have hpoint : '.' ∉ t.name.toList := by
      rwa [hname, Text.mem_toList_join_iff "-" (by decide)]
    rw [Reference.dottedToName_join hkeys, ← hname, exists_find?_name_iff hfiles ht hpoint]
    exact (and_iff_right hkeys).symm

end Registry

namespace Editor

/-- The dotted path of a token that is named after its path. -/
lemma dottedPath_eq_join {c : TokenFile.Context} {t : Token} (h : TokenFile.Authored c t) :
    t.dottedPath = Text.join "." t.path := by
  rw [Token.dottedPath]
  split_ifs with hempty
  · rw [h.name_eq, List.isEmpty_iff.mp hempty]
    decide
  · rfl

/-- When the label of a token of a file, its dotted path, refers back to the token: put in braces it
is one reference to the token's name exactly if no key has a point or a closing brace and the label
is not empty and has no blanks around it; and it is looked up with a token of that name exactly if
no key has a point and the name does not start with two hyphens, as CSS variables do, or there is no
file. -/
theorem label_refers_back_iff {content : String} {format : TokenFile.Format}
    {options : TokenFile.Options} {file : TokenFile}
    (hparse : TokenFile.parse content format options = .ok file) {t : Token}
    (ht : t ∈ file.tokens) :
    labelFor .reference t = t.dottedPath ∧
    (∀ version,
      (∃ r, Reference.extract (Reference.braced t.dottedPath) version = [r] ∧
          r.kind = .curly ∧ r.tokenName = t.name) ↔
        (∀ key ∈ t.path, '.' ∉ key.toList ∧ '}' ∉ key.toList) ∧ t.dottedPath ≠ "" ∧
          Text.Unspaced t.dottedPath) ∧
    ∀ fallback range,
      (∃ s, lookup (.ofList file.tokens) ⟨.reference, t.dottedPath, fallback, range⟩ =
          some s ∧ s.name = t.name) ↔
        (∀ key ∈ t.path, '.' ∉ key.toList) ∧
          (options.filePath = "" ∨ ¬ "--".toList <+: t.name.toList) := by
  have hauthored := TokenFile.authored_of_parse hparse
  have hname := (hauthored t ht).name_eq
  refine ⟨rfl, ?_⟩
  rw [dottedPath_eq_join (hauthored t ht)]
  constructor
  · intro version
    rw [hname]
    exact Reference.exists_extract_braced_iff t.path version
  · intro fallback range
    exact Registry.exists_find?_label_iff (fun s hs => (hauthored s hs).filePath_eq) ht hname

/-- A token at `a`, `x{ y`, whose label can be written, and one at `a.b`, whose label cannot. -/
def labelledText : String :=
  "\x7b\"a\":\x7b\"x\x7b y\":\x7b\"$value\":\"1\"\x7d\x7d,\"a.b\":\x7b\"$value\":\"2\"\x7d\x7d"

/-- The token at `a`, `x{ y`. -/
def spacedToken : Token :=
  { name := "a-x\x7b y", value := "1", path := ["a", "x\x7b y"], filePath := "tokens.json"
    character := 6, version := .draft }

/-- The token at `a.b`. -/
def pointedToken : Token :=
  { name := "a.b", value := "2", path := ["a.b"], filePath := "tokens.json"
    character := 29, version := .draft }

lemma parse_labelledText :
    TokenFile.parse labelledText .json { filePath := "tokens.json" } =
      .ok ⟨.draft, [spacedToken, pointedToken]⟩ := by
  have hread : TokenFile.readDocument .json labelledText =
      .ok (.object [("a", .object [("x\x7b y", .object [("$value", .string "1")])]),
        ("a.b", .object [("$value", .string "2")])]) := by
    cbv
  rw [TokenFile.parse, hread]
  rfl

theorem label_refers_back_spaced :
    TokenFile.parse labelledText .json { filePath := "tokens.json" } =
      .ok ⟨.draft, [spacedToken, pointedToken]⟩ ∧
    spacedToken ∈ [spacedToken, pointedToken] ∧
    labelFor .reference spacedToken = "a.x\x7b y" ∧
    (∀ version, ∃ r,
      Reference.extract (Reference.braced spacedToken.dottedPath) version = [r] ∧
        r.kind = .curly ∧ r.tokenName = spacedToken.name) ∧
    ∀ fallback range, ∃ s,
      lookup (.ofList [spacedToken, pointedToken])
        ⟨.reference, spacedToken.dottedPath, fallback, range⟩ = some s ∧
        s.name = spacedToken.name := by
  have hmem : spacedToken ∈ [spacedToken, pointedToken] := List.mem_cons_self ..
  obtain ⟨hlabel, hbraced, hlookup⟩ := label_refers_back_iff parse_labelledText hmem
  refine ⟨parse_labelledText, hmem, hlabel.trans (by decide),
    fun version => (hbraced version).mpr ?_, fun fallback range => (hlookup fallback range).mpr ?_⟩
  · decide
  · decide

/-- The label `a.b` of the token at the key `a.b` does not refer back to it. -/
theorem pointed_label_refers_elsewhere :
    TokenFile.parse labelledText .json { filePath := "tokens.json" } =
      .ok ⟨.draft, [spacedToken, pointedToken]⟩ ∧
    pointedToken.isExtendsMarker = false ∧
    (∀ version, ¬ ∃ r,
      Reference.extract (Reference.braced pointedToken.dottedPath) version = [r] ∧
        r.kind = .curly ∧ r.tokenName = pointedToken.name) ∧
    ∀ fallback range, ¬ ∃ s,
      lookup (.ofList [spacedToken, pointedToken])
        ⟨.reference, pointedToken.dottedPath, fallback, range⟩ = some s ∧
        s.name = pointedToken.name := by
  have hfiles : ∀ s ∈ [spacedToken, pointedToken], s.filePath = "tokens.json" := by decide
  have hmem : pointedToken ∈ [spacedToken, pointedToken] :=
    List.mem_cons_of_mem _ (List.mem_singleton_self _)
  refine ⟨parse_labelledText, by decide, fun version h => ?_, fun fallback range h => ?_⟩
  · have hkeys := ((Reference.exists_extract_braced_iff ["a.b"] version).mp h).1
    exact absurd hkeys (by decide)
  · have hkeys := ((Registry.exists_find?_label_iff hfiles hmem rfl).mp h).1
    exact absurd hkeys (by decide)

end Editor

end DesignTokens
