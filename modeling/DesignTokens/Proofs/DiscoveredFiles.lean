import DesignTokens.Discovery
import DesignTokens.Proofs.GroupPaths
import DesignTokens.Proofs.ReferenceGraph
import Mathlib.Data.List.Nodup

/-!
# The files that are found

What is found below a directory has paths that begin with that of the directory, and what is found
in different entries goes on with different names. So in a tree in which each directory has its
names once (`Entry.Proper`) no file is found twice (`Discovery.nodup_tokenFiles`), where two paths
with the same components count as the same.
-/

namespace DesignTokens

/-! ## Paths with a name at the end -/

namespace Text

/-- A text is split at a separator and the parts are split for themselves. -/
lemma splitChars_append_cons (sep : Char) (cs rest : List Char) :
    splitChars sep (cs ++ sep :: rest) = splitChars sep cs ++ splitChars sep rest := by
  induction cs with
  | nil => simp [splitChars]
  | cons c cs ih =>
    obtain ⟨piece, pieces, hpieces⟩ := List.exists_cons_of_ne_nil (splitChars_ne_nil sep cs)
    rw [List.cons_append, splitChars, splitChars, ih, hpieces]
    split_ifs
    · rfl
    · rfl

/-- A text that ends with a slash and a piece without one. -/
lemma split_of_append {s piece : String} {front : List Char} (hpiece : '/' ∉ piece.toList)
    (h : s.toList = front ++ '/' :: piece.toList) :
    split '/' s = (splitChars '/' front).map String.ofList ++ [piece] := by
  rw [split, h, splitChars_append_cons, splitChars_of_notMem hpiece, List.map_append,
    List.map_singleton, String.ofList_toList]

end Text

namespace Path

open Text

/-- A text that can stand in a directory as the name of an entry. -/
structure IsName (name : String) : Prop where
  ne_empty : name ≠ ""
  ne_current : name ≠ "."
  ne_parent : name ≠ ".."
  no_slash : '/' ∉ name.toList

instance (name : String) : Decidable (IsName name) :=
  decidable_of_iff (name ≠ "" ∧ name ≠ "." ∧ name ≠ ".." ∧ '/' ∉ name.toList)
    ⟨fun h => ⟨h.1, h.2.1, h.2.2.1, h.2.2.2⟩,
      fun h => ⟨h.ne_empty, h.ne_current, h.ne_parent, h.no_slash⟩⟩

/-- A proper name is a component of its own. -/
lemma IsName.ofSegment?_eq {name : String} (h : IsName name) :
    Component.ofSegment? name = some (.name name) := by
  simp [Component.ofSegment?, h.ne_empty, h.ne_current, h.ne_parent]

lemma isAbsolute_iff {path : String} : isAbsolute path = true ↔ path.toList.head? = some '/' := by
  rw [isAbsolute, startsWith, Option.isSome_iff_exists, List.head?_eq_some_iff]
  exact exists_congr fun rest => dropStart?_eq_some

lemma exists_of_endsWith_slash {base : String} (h : endsWith "/" base = true) :
    ∃ front, base.toList = front ++ ['/'] := by
  rw [endsWith, Option.isSome_iff_exists] at h
  obtain ⟨rest, hrest⟩ := h
  have hreverse : base.toList.reverse = '/' :: rest := dropStart?_eq_some.mp hrest
  exact ⟨rest.reverse, by rw [← List.reverse_cons, ← hreverse, List.reverse_reverse]⟩

/-- A proper name is a relative path. -/
lemma IsName.isAbsolute_eq {name : String} (h : IsName name) : isAbsolute name = false := by
  rw [← Bool.not_eq_true, isAbsolute_iff]
  exact fun hhead => h.no_slash (List.mem_of_head? hhead)

/-- A path with a name in the place of what the other one may end with, a last empty segment. -/
lemma components_extend {path path' name : String} (h : IsName name) {pieces : List String}
    (ending : List String) (hstart : path'.toList.head? = path.toList.head?) (hpieces : pieces ≠ [])
    (hending : ending.filterMap Component.ofSegment? = [])
    (hold : split '/' path = pieces ++ ending) (hnew : split '/' path' = pieces ++ [name]) :
    components path' = components path ++ [.name name] := by
  have habsolute : isAbsolute path' = isAbsolute path := by
    rw [Bool.eq_iff_iff, isAbsolute_iff, isAbsolute_iff, hstart]
  have hname : [name].filterMap Component.ofSegment? = [.name name] := by
    rw [List.filterMap_cons_some h.ofSegment?_eq, List.filterMap_nil]
  simp only [components, habsolute, hold, hnew, List.head?_append_of_ne_nil _ hpieces,
    List.filterMap_append, hending, hname, List.append_nil]
  split_ifs
  · rfl
  · rfl
  · rfl

/-- The components of a path in a directory. -/
lemma components_join {base name : String} (h : IsName name) :
    components (join base name) = components base ++ [.name name] := by
  rw [join, if_neg (by rw [h.isAbsolute_eq]; decide)]
  by_cases hempty : base = ""
  · subst hempty
    have hsplit : split '/' name = [name] := by
      rw [split, splitChars_of_notMem h.no_slash, List.map_singleton, String.ofList_toList]
    have hname : components name = [.name name] := by
      simp [components, hsplit, h.isAbsolute_eq, h.ne_current, h.ofSegment?_eq]
    rw [if_pos (by simp), String.empty_append, hname]
    rfl
  · obtain ⟨c, cs, hbase⟩ := List.exists_cons_of_ne_nil (mt String.toList_eq_nil_iff.mp hempty)
    have hne : ∀ front, (splitChars '/' front).map String.ofList ≠ [] :=
      fun front => mt List.map_eq_nil_iff.mp (splitChars_ne_nil '/' front)
    by_cases hslash : endsWith "/" base = true
    · -- The name takes the place of the empty segment behind the last slash.
      obtain ⟨front, hfront⟩ := exists_of_endsWith_slash hslash
      have hchars : (base ++ name).toList = front ++ '/' :: name.toList := by
        rw [String.toList_append, hfront, List.append_assoc, List.singleton_append]
      rw [if_pos (by simp [hslash])]
      refine components_extend h [""] (by simp [hbase]) (hne front) rfl ?_
        (split_of_append h.no_slash hchars)
      exact split_of_append (by simp) (by simpa using hfront)
    · have hchars : (base ++ "/" ++ name).toList = base.toList ++ '/' :: name.toList := by
        simp
      rw [if_neg (by simp [hslash, hempty])]
      refine components_extend h [] (by simp [hbase]) (hne base.toList) rfl ?_
        (split_of_append h.no_slash hchars)
      rw [List.append_nil, split]

end Path

/-! ## Trees without repeated names -/

namespace Entry

/-- An entry in which each directory has only names that can stand there, each once. -/
inductive Proper : Entry → Prop
  | file (content : ByteArray) : Proper (.file content)
  | directory {entries : List (String × Entry)} (nodup : (entries.map Prod.fst).Nodup)
      (names : ∀ e ∈ entries, Path.IsName e.1) (proper : ∀ e ∈ entries, Proper e.2) :
      Proper (.directory entries)

lemma mem_of_child? {name : String} {entries : List (String × Entry)} {e : Entry}
    (h : child? name entries = some e) : (name, e) ∈ entries := by
  induction entries with
  | nil => cases h
  | cons entry rest ih =>
    obtain ⟨n, e'⟩ := entry
    rw [child?] at h
    split_ifs at h with hname
    · rw [← hname, ← Option.some.inj h]
      exact List.mem_cons_self ..
    · exact List.mem_cons_of_mem _ (ih h)

/-- All that is in a proper entry is proper. -/
lemma Proper.find? {e e' : Entry} {names : List String} (h : Proper e)
    (hfind : find? names e = some e') : Proper e' := by
  induction names generalizing e with
  | nil =>
    cases hfind
    exact h
  | cons name names ih =>
    cases h with
    | file content => cases hfind
    | directory nodup names proper =>
      obtain ⟨inner, hinner, hfind⟩ := Option.bind_eq_some_iff.mp hfind
      exact ih (proper _ (mem_of_child? hinner)) hfind

end Entry

/-! ## What is found in a tree -/

namespace Discovery

open DesignTokens.Path (components)

/-- What an entry contributes to the files found in its directory. -/
def foundAt (scopes : List Scope) (names : List String) (path name : String) (e : Entry) :
    List String :=
  if isPassedOver name || isIgnored scopes (names ++ [name]) e.isDirectory then []
  else if !e.isDirectory then if isTokenFileName name then [Path.join path name] else []
  else foundIn scopes (names ++ [name]) (Path.join path name) e

lemma foundAmong_cons (scopes : List Scope) (names : List String) (path name : String) (e : Entry)
    (rest : List (String × Entry)) :
    foundAmong scopes names path ((name, e) :: rest) =
      foundAt scopes names path name e ++ foundAmong scopes names path rest := by
  rw [foundAmong]
  rfl

/-- Paths that are all different and begin with some components. -/
structure Below (start : List Path.Component) (paths : List String) : Prop where
  nodup : (paths.map components).Nodup
  begins : ∀ path ∈ paths, start <+: components path

lemma below_nil (start : List Path.Component) : Below start [] :=
  ⟨List.nodup_nil, by simp⟩

/-- What is found in different entries of a directory has nothing in common. -/
lemma Below.append {start : List Path.Component} {name : String} {found rest : List String}
    (hfound : Below (start ++ [.name name]) found) (hrest : Below start rest)
    (hapart : ∀ path ∈ rest, ¬ start ++ [.name name] <+: components path) :
    Below start (found ++ rest) := by
  constructor
  · rw [List.map_append, List.nodup_append]
    refine ⟨hfound.nodup, hrest.nodup, ?_⟩
    rintro a ha b hb rfl
    obtain ⟨path, hpath, hcomponents⟩ := List.mem_map.mp ha
    obtain ⟨path', hpath', hcomponents'⟩ := List.mem_map.mp hb
    have hbegins := hfound.begins path hpath
    rw [hcomponents, ← hcomponents'] at hbegins
    exact hapart path' hpath' hbegins
  · intro path hpath
    rcases List.mem_append.mp hpath with hpath | hpath
    · exact (List.prefix_append _ _).trans (hfound.begins path hpath)
    · exact hrest.begins path hpath

/-- What is found at an entry lies below its name, if that is so of what is found in it. -/
lemma below_foundAt (scopes : List Scope) (names : List String) (path : String) {name : String}
    {e : Entry} (hname : Path.IsName name)
    (hin : ∀ outer names path, Below (components path) (foundIn outer names path e)) :
    Below (components path ++ [.name name]) (foundAt scopes names path name e) := by
  rw [← Path.components_join hname, foundAt]
  split_ifs
  · exact below_nil _
  · exact ⟨List.nodup_singleton _, by simp⟩
  · exact below_nil _
  · exact hin _ _ _

/-- What is found among entries begins with the name of one of them. -/
lemma below_foundAmong {scopes : List Scope} {names : List String} {path : String}
    {entries : List (String × Entry)} (hnodup : (entries.map Prod.fst).Nodup)
    (hnames : ∀ e ∈ entries, Path.IsName e.1)
    (hin : ∀ e ∈ entries, ∀ outer names path,
      Below (components path) (foundIn outer names path e.2)) :
    Below (components path) (foundAmong scopes names path entries) ∧
      ∀ found ∈ foundAmong scopes names path entries, ∃ name ∈ entries.map Prod.fst,
        components path ++ [.name name] <+: components found := by
  induction entries with
  | nil =>
    rw [foundAmong]
    exact ⟨below_nil _, by simp⟩
  | cons entry rest ih =>
    obtain ⟨name, e⟩ := entry
    obtain ⟨hnew, hnodup⟩ := List.nodup_cons.mp hnodup
    obtain ⟨hname, hnames⟩ := List.forall_mem_cons.mp hnames
    obtain ⟨hentry, hin⟩ := List.forall_mem_cons.mp hin
    obtain ⟨hrest, hbegins⟩ := ih hnodup hnames hin
    have hfound := below_foundAt scopes names path hname hentry
    rw [foundAmong_cons]
    constructor
    · refine hfound.append hrest fun found hmem hstart => ?_
      obtain ⟨other, hother, hstart'⟩ := hbegins found hmem
      -- Both names would be the next component of the same path.
      have heq := (List.prefix_of_prefix_length_le hstart hstart' (by simp)).eq_of_length (by simp)
      cases List.append_cancel_left heq
      exact hnew hother
    · intro found hmem
      rcases List.mem_append.mp hmem with hmem | hmem
      · exact ⟨name, List.mem_cons_self .., hfound.begins found hmem⟩
      · obtain ⟨other, hother, hstart⟩ := hbegins found hmem
        exact ⟨other, List.mem_cons_of_mem _ hother, hstart⟩

/-- What is found in a directory lies below it. -/
lemma below_foundIn {e : Entry} (h : e.Proper) (outer : List Scope) (names : List String)
    (path : String) : Below (components path) (foundIn outer names path e) := by
  induction h generalizing outer names path with
  | file content =>
    rw [foundIn]
    exact below_nil _
  | directory nodup hnames _ ih =>
    rw [foundIn]
    exact (below_foundAmong nodup hnames ih).1

/-- No file is found twice. -/
lemma nodup_tokenFiles {fs : FileSystem} (h : fs.root.Proper) (path : String) :
    ((tokenFiles fs path).map components).Nodup := by
  unfold tokenFiles
  split
  · exact List.nodup_nil
  · split
    · split_ifs
      · exact List.nodup_singleton _
      · exact List.nodup_nil
    · next hfind =>
      rw [((List.mergeSort_perm _ Path.le).map components).nodup_iff]
      exact (below_foundIn (h.find? hfind) _ _ path).nodup
    · exact List.nodup_nil

end Discovery

end DesignTokens
