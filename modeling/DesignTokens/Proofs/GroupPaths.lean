import DesignTokens.Inheritance
import DesignTokens.Proofs.TopologicalOrder
import Mathlib.Data.List.Basic

/-!
# Groups by text and by path

The extension graph knows a group by one text, and tokens lie in groups by their paths. In a batch
whose segments hold no slash (`Regular`) the two views agree:

* a token lies in a group exactly if the segments of the group begin its path (`inGroup_iff`);
* a group extends another exactly if the last marker of the group says so (`parent?`,
  `find?_extensions`), and that is what the extension graph records (`dependsOn_iff_extends`).
-/

namespace DesignTokens

open Relation

/-- In a list with different keys an element is found by its key. -/
lemma find?_of_nodup_map {α β : Type} [DecidableEq β] {key : α → β} {l : List α}
    (hnodup : (l.map key).Nodup) {a : α} (ha : a ∈ l) :
    l.find? (fun b => key b = key a) = some a := by
  induction l with
  | nil => cases ha
  | cons b rest ih =>
    obtain ⟨hb, hrest⟩ := List.nodup_cons.mp hnodup
    rcases List.mem_cons.mp ha with rfl | ha
    · simp
    · have hne : key b ≠ key a := fun h => hb (h ▸ List.mem_map_of_mem ha)
      rw [List.find?_cons_of_neg (by simpa using hne)]
      exact ih hrest ha

/-! ## Splitting at slashes and joining again -/

namespace Text

lemma splitChars_ne_nil (sep : Char) (cs : List Char) : splitChars sep cs ≠ [] := by
  induction cs with
  | nil => exact List.cons_ne_nil _ _
  | cons c cs ih =>
    unfold splitChars
    split_ifs
    · exact List.cons_ne_nil _ _
    · split
      · exact List.cons_ne_nil _ _
      · exact List.cons_ne_nil _ _

/-- A text without the separator is one piece. -/
lemma splitChars_of_notMem {sep : Char} {cs : List Char} (h : sep ∉ cs) :
    splitChars sep cs = [cs] := by
  induction cs with
  | nil => rfl
  | cons c cs ih =>
    rw [List.mem_cons, not_or] at h
    obtain ⟨hc, hcs⟩ := h
    rw [splitChars, if_neg (Ne.symm hc), ih hcs]

/-- The first piece ends at the first separator. -/
lemma splitChars_append {sep : Char} {piece : List Char} (h : sep ∉ piece) (rest : List Char) :
    splitChars sep (piece ++ sep :: rest) = piece :: splitChars sep rest := by
  induction piece with
  | nil => rw [List.nil_append, splitChars, if_pos rfl]
  | cons c piece ih =>
    rw [List.mem_cons, not_or] at h
    obtain ⟨hc, hpiece⟩ := h
    rw [List.cons_append, splitChars, if_neg (Ne.symm hc), ih hpiece]

/-- No piece has the separator in it. -/
lemma notMem_of_mem_splitChars {sep : Char} {cs piece : List Char}
    (h : piece ∈ splitChars sep cs) : sep ∉ piece := by
  induction cs generalizing piece with
  | nil => simp_all [splitChars]
  | cons c cs ih =>
    unfold splitChars at h
    split_ifs at h with hc
    · rcases List.mem_cons.mp h with rfl | h
      · exact List.not_mem_nil
      · exact ih h
    · -- The character joins the first piece of the rest.
      split at h
      · next hnil => exact absurd hnil (splitChars_ne_nil sep cs)
      · next first pieces hpieces =>
        rcases List.mem_cons.mp h with rfl | h
        · have hfirst := ih (hpieces ▸ List.mem_cons_self ..)
          rw [List.mem_cons, not_or]
          exact ⟨Ne.symm hc, hfirst⟩
        · exact ih (hpieces ▸ List.mem_cons_of_mem _ h)

/-- Pieces without slashes are got back from the joined text. -/
lemma split_join {pieces : List String} (hne : pieces ≠ [])
    (h : ∀ s ∈ pieces, '/' ∉ s.toList) : split '/' (join "/" pieces) = pieces := by
  induction pieces with
  | nil => exact absurd rfl hne
  | cons s pieces ih =>
    obtain ⟨hs, hpieces⟩ := List.forall_mem_cons.mp h
    cases pieces with
    | nil => simp [join, split, splitChars_of_notMem hs]
    | cons t rest =>
      have htail := ih (List.cons_ne_nil _ _) hpieces
      have hchars : (join "/" (s :: t :: rest)).toList
          = s.toList ++ '/' :: (join "/" (t :: rest)).toList := by
        simp [join, String.toList_append]
      rw [split, hchars, splitChars_append hs, List.map_cons, String.ofList_toList]
      exact congrArg (s :: ·) htail

/-- A character at the front of the first piece stands at the front of the whole. -/
lemma toList_join_cons (c : Char) (piece : List Char) (pieces : List String) :
    (join "/" (String.ofList (c :: piece) :: pieces)).toList
      = c :: (join "/" (String.ofList piece :: pieces)).toList := by
  cases pieces with
  | nil => simp [join]
  | cons t rest => simp [join, String.toList_append]

/-- The characters of the pieces, with slashes between, are those of the text. -/
lemma toList_join_splitChars (cs : List Char) :
    (join "/" ((splitChars '/' cs).map String.ofList)).toList = cs := by
  induction cs with
  | nil => simp [splitChars, join]
  | cons c cs ih =>
    obtain ⟨first, pieces, hpieces⟩ := List.exists_cons_of_ne_nil (splitChars_ne_nil '/' cs)
    rw [hpieces, List.map_cons] at ih
    unfold splitChars
    split_ifs with hc
    · rw [hpieces, List.map_cons, List.map_cons, join, String.toList_append, ih, hc]
      simp
    · simp only [hpieces, List.map_cons]
      rw [toList_join_cons, ih]

/-- A text is got back from its pieces. -/
lemma join_split (s : String) : join "/" (split '/' s) = s := by
  rw [← String.toList_inj, split, toList_join_splitChars]

end Text

namespace Inheritance

/-! ## Group texts and group paths -/

/-- No segment of the path holds a slash. -/
def Plain (path : List String) : Prop :=
  ∀ s ∈ path, '/' ∉ s.toList

instance (path : List String) : Decidable (Plain path) :=
  inferInstanceAs (Decidable (∀ s ∈ path, '/' ∉ s.toList))

lemma Plain.append {path path' : List String} (h : Plain path) (h' : Plain path') :
    Plain (path ++ path') :=
  fun s hs => (List.mem_append.mp hs).elim (h s) (h' s)

lemma Plain.sublist {path path' : List String} (h : Plain path) (hsub : path'.Sublist path) :
    Plain path' :=
  fun s hs => h s (hsub.subset hs)

/-- The name of a group tells its path, if no key has a slash. -/
lemma segments_groupName {path : List String} (hne : path ≠ []) (h : Plain path) :
    segments (groupName path) = path :=
  Text.split_join hne h

/-- Every text is the name of the group at its segments. -/
@[simp]
lemma groupName_segments (group : String) : groupName (segments group) = group :=
  Text.join_split group

lemma segments_ne_nil (group : String) : segments group ≠ [] := by
  rw [segments, Text.split, ne_eq, List.map_eq_nil_iff]
  exact Text.splitChars_ne_nil _ _

/-- No segment has a slash. -/
lemma plain_segments (group : String) : Plain (segments group) := by
  intro s hs
  obtain ⟨piece, hpiece, rfl⟩ := List.mem_map.mp hs
  rw [String.toList_ofList]
  exact Text.notMem_of_mem_splitChars hpiece

/-- The leads of a path are its nonempty beginnings. -/
lemma mem_leads {lead path : List String} : lead ∈ leads path ↔ lead ≠ [] ∧ lead <+: path := by
  induction path generalizing lead with
  | nil =>
    rw [List.prefix_nil]
    exact ⟨fun h => absurd h List.not_mem_nil, fun h => absurd h.2 h.1⟩
  | cons s rest ih =>
    cases lead with
    | nil => simp [leads]
    | cons a lead =>
      by_cases hlead : lead = []
      · simp [leads, hlead, ih, List.cons_prefix_cons]
      · simp [leads, hlead, ih, List.cons_prefix_cons, eq_comm, and_comm]

/-- A token lies in a group exactly if the segments of the group begin its path. -/
lemma inGroup_iff {group : String} {path : List String} (h : Plain path) :
    inGroup group path = true ↔ segments group <+: path := by
  simp only [inGroup, List.any_eq_true, decide_eq_true_eq]
  constructor
  · rintro ⟨lead, hlead, rfl⟩
    obtain ⟨hne, hbegins⟩ := mem_leads.mp hlead
    rwa [segments_groupName hne (h.sublist hbegins.sublist)]
  · intro hbegins
    exact ⟨segments group, mem_leads.mpr ⟨segments_ne_nil group, hbegins⟩,
      groupName_segments group⟩

/-! ## The group that a group extends -/

/-- A batch in which the texts of groups stand for their paths. -/
structure Regular (tokens : List Token) : Prop where
  /-- No segment of a path holds a slash. -/
  plain : ∀ t ∈ tokens, Plain t.path
  /-- A marker that counts stands in a group. -/
  grouped : ∀ t ∈ tokens, t.isExtendsMarker = true → t.version = .v2025_10 → t.path.dropLast ≠ []

lemma Regular.of_append {tokens tokens' : List Token} (h : Regular (tokens ++ tokens')) :
    Regular tokens :=
  ⟨fun t ht => h.plain t (List.mem_append_left _ ht),
    fun t ht => h.grouped t (List.mem_append_left _ ht)⟩

/-- The path of the group that a marker names. -/
def markedParent (t : Token) : List String :=
  segments ((Reference.pointerPath? t.value).getD t.value)

/-- The group that a group extends; of several markers that count, the last one says it. -/
def parent? (tokens : List Token) (group : List String) : Option (List String) :=
  (tokens.reverse.find? fun t => t.version = .v2025_10 ∧ t.path = group ++ [extendsKey]).map
    markedParent

/-- The first group extends the second. -/
def Extends (tokens : List Token) (child parent : List String) : Prop :=
  parent? tokens child = some parent

instance (tokens : List Token) (child parent : List String) :
    Decidable (Extends tokens child parent) :=
  inferInstanceAs (Decidable (parent? tokens child = some parent))

/-- A marker is a token whose path ends in the key for extensions. -/
lemma isExtendsMarker_iff {t : Token} :
    t.isExtendsMarker = true ↔ t.path = t.path.dropLast ++ [extendsKey] := by
  rw [Token.isExtendsMarker, beq_iff_eq]
  constructor
  · intro h
    exact (List.dropLast_append_getLast? _ h).symm
  · intro h
    rw [h, List.getLast?_concat]

lemma isExtendsMarker_of_path {t : Token} {group : List String}
    (h : t.path = group ++ [extendsKey]) : t.isExtendsMarker = true := by
  rw [isExtendsMarker_iff, h, List.dropLast_concat]

/-- Only a marker of the release declares anything, and it does so for its own group. -/
lemma ofMarker?_eq_some {t : Token} {e : Extension} (h : ofMarker? t = some e) :
    t.isExtendsMarker = true ∧ t.version = .v2025_10 ∧
      e = ⟨groupName t.path.dropLast, groupName (markedParent t)⟩ := by
  unfold ofMarker? at h
  split_ifs at h with hmarker
  rw [Bool.and_eq_true, decide_eq_true_eq] at hmarker
  refine ⟨hmarker.1, hmarker.2, ?_⟩
  rw [markedParent, groupName_segments]
  exact (Option.some.inj h).symm

/-- The marker that comes last says what a group extends. -/
lemma parent?_concat (tokens : List Token) (t : Token) (group : List String) :
    parent? (tokens ++ [t]) group =
      if t.version = .v2025_10 ∧ t.path = group ++ [extendsKey] then some (markedParent t)
      else parent? tokens group := by
  unfold parent?
  rw [List.reverse_append, List.reverse_singleton, List.singleton_append, List.find?_cons]
  split_ifs with h
  · simp [h]
  · simp [h]

/-- The marker that says which group is extended. -/
lemma Extends.exists_marker {tokens : List Token} {child parent : List String}
    (h : Extends tokens child parent) :
    ∃ t ∈ tokens, t.version = .v2025_10 ∧ t.path = child ++ [extendsKey] ∧
      parent = markedParent t := by
  obtain ⟨t, hfind, rfl⟩ := Option.map_eq_some_iff.mp h
  have hmem := List.mem_reverse.mp (List.mem_of_find?_eq_some hfind)
  have hmarker := List.find?_some hfind
  rw [decide_eq_true_eq] at hmarker
  exact ⟨t, hmem, hmarker.1, hmarker.2, rfl⟩

/-- The name of a group that extends another tells its path. -/
lemma Extends.segments_child {tokens : List Token} (hreg : Regular tokens)
    {child parent : List String} (h : Extends tokens child parent) :
    segments (groupName child) = child := by
  obtain ⟨t, ht, hversion, hpath, -⟩ := h.exists_marker
  have hne := hreg.grouped t ht (isExtendsMarker_of_path hpath) hversion
  have hplain := hreg.plain t ht
  rw [hpath, List.dropLast_concat] at hne
  rw [hpath] at hplain
  exact segments_groupName hne (hplain.sublist (List.sublist_append_left _ _))

/-- The name of a group that is extended tells its path. -/
lemma Extends.segments_parent {tokens : List Token} {child parent : List String}
    (h : Extends tokens child parent) : segments (groupName parent) = parent := by
  obtain ⟨t, -, -, -, rfl⟩ := h.exists_marker
  rw [markedParent, groupName_segments]

/-! ## The declared extensions -/

/-- A new declaration takes the place of an earlier one of the same group. -/
lemma find?_declare (e : Extension) (all : List Extension) (group : String) :
    (declare e all).find? (fun d => d.child = group) =
      if e.child = group then some e else all.find? fun d => d.child = group := by
  induction all with
  | nil => by_cases h : e.child = group <;> simp [declare, h]
  | cons d rest ih =>
    unfold declare
    split_ifs with hd h h
    · simp [h]
    · rw [List.find?_cons_of_neg (by simpa using h),
        List.find?_cons_of_neg (by simpa [hd] using h)]
    · rw [List.find?_cons_of_neg (by simpa [← h] using hd), ih, if_pos h]
    · rw [List.find?_cons, List.find?_cons, ih, if_neg h]

/-- A declaration keeps the children, or adds its own at the end. -/
lemma map_child_declare (e : Extension) (all : List Extension) :
    (declare e all).map Extension.child =
      if e.child ∈ all.map Extension.child then all.map Extension.child
      else all.map Extension.child ++ [e.child] := by
  induction all with
  | nil => simp [declare]
  | cons d rest ih =>
    unfold declare
    split_ifs with hd hmem hmem
    · simp [hd]
    · exact absurd (by simp [hd]) hmem
    · have hrest : e.child ∈ rest.map Extension.child :=
        (List.mem_cons.mp hmem).resolve_left (Ne.symm hd)
      rw [List.map_cons, ih, if_pos hrest, List.map_cons]
    · have hrest : e.child ∉ rest.map Extension.child :=
        fun h => hmem (List.mem_cons_of_mem _ h)
      rw [List.map_cons, ih, if_neg hrest, List.map_cons, List.cons_append]

/-- One more marker declares one more extension. -/
lemma extensions_concat (tokens : List Token) (t : Token) :
    extensions (tokens ++ [t]) =
      match ofMarker? t with
      | some e => declare e (extensions tokens)
      | none => extensions tokens := by
  unfold extensions
  rw [List.filterMap_append, List.foldl_append]
  cases h : ofMarker? t with
  | none => simp [h]
  | some e => simp [h]

/-- No group is declared to extend two groups. -/
lemma nodup_children (tokens : List Token) :
    ((extensions tokens).map Extension.child).Nodup := by
  induction tokens using List.reverseRecOn with
  | nil => exact List.nodup_nil
  | append_singleton tokens t ih =>
    rw [extensions_concat]
    cases ofMarker? t with
    | none => exact ih
    | some e =>
      simp only
      rw [map_child_declare]
      split_ifs with hmem
      · exact ih
      · rw [List.nodup_append]
        refine ⟨ih, by simp, ?_⟩
        rintro a ha b hb rfl
        exact hmem (List.mem_singleton.mp hb ▸ ha)

/-- The extension that was declared for a group is what the last marker of the group says. -/
lemma find?_extensions {tokens : List Token} (h : Regular tokens) (group : String) :
    (extensions tokens).find? (fun e => e.child = group) =
      (parent? tokens (segments group)).map fun parent => ⟨group, groupName parent⟩ := by
  -- From the end of the batch, because later markers replace earlier ones.
  induction tokens using List.reverseRecOn with
  | nil => rfl
  | append_singleton tokens t ih =>
    have ht : t ∈ tokens ++ [t] := List.mem_append_right _ (List.mem_singleton_self t)
    have hold := ih h.of_append
    rw [extensions_concat, parent?_concat]
    cases hdecl : ofMarker? t with
    | none =>
      -- A token that declares nothing is no marker of any group that counts.
      have hno : ¬ (t.version = .v2025_10 ∧ t.path = segments group ++ [extendsKey]) := by
        rintro ⟨hversion, hpath⟩
        simp [ofMarker?, isExtendsMarker_of_path hpath, hversion] at hdecl
      rw [if_neg hno]
      exact hold
    | some e =>
      obtain ⟨hmarker, hversion, rfl⟩ := ofMarker?_eq_some hdecl
      -- A marker is one of the group exactly if the texts agree, as the batch is regular.
      have hchild : groupName t.path.dropLast = group ↔
          t.path = segments group ++ [extendsKey] := by
        constructor
        · rintro rfl
          have hplain := (h.plain t ht).sublist (List.dropLast_sublist _)
          rw [segments_groupName (h.grouped t ht hmarker hversion) hplain]
          exact isExtendsMarker_iff.mp hmarker
        · intro hpath
          rw [hpath, List.dropLast_concat, groupName_segments]
      simp only
      rw [find?_declare]
      by_cases hgroup : groupName t.path.dropLast = group
      · rw [if_pos hgroup, if_pos ⟨hversion, hchild.mp hgroup⟩, Option.map_some, hgroup]
      · rw [if_neg hgroup, if_neg (fun hpath => hgroup (hchild.mpr hpath.2)), hold]

/-- The extensions that are found are what groups extend. -/
lemma mem_extensions {tokens : List Token} (h : Regular tokens) {child parent : String} :
    ⟨child, parent⟩ ∈ extensions tokens ↔ Extends tokens (segments child) (segments parent) := by
  constructor
  · intro hmem
    have hfind := find?_of_nodup_map (nodup_children tokens) hmem
    rw [find?_extensions h] at hfind
    obtain ⟨path, hpath, heq⟩ := Option.map_eq_some_iff.mp hfind
    have hparent : groupName path = parent := congrArg Extension.parent heq
    have hext : Extends tokens (segments child) path := hpath
    rw [← hparent, hext.segments_parent]
    exact hext
  · intro hext
    have hfind := find?_extensions h child
    rw [show parent? tokens (segments child) = some (segments parent) from hext, Option.map_some,
      groupName_segments] at hfind
    exact List.mem_of_find?_eq_some hfind

/-! ## The extension graph -/

/-- The graph of the extensions is built from one edge for each. -/
lemma graph_eq_build (all : List Extension) :
    graph all = Graph.build (all.map fun e => .dependency e.child e.parent) := by
  rw [graph, Graph.build, List.foldl_map]
  rfl

/-- The extension graph records which group extends which. -/
lemma dependsOn_iff_extends {tokens : List Token} (h : Regular tokens) {a b : String} :
    (graph (extensions tokens)).DependsOn a b ↔ Extends tokens (segments a) (segments b) := by
  rw [graph_eq_build, Graph.dependsOn_build, ← mem_extensions h, List.mem_map]
  constructor
  · rintro ⟨e, he, heq⟩
    cases heq
    exact he
  · exact fun hmem => ⟨_, hmem, rfl⟩

/-- A group depends on the one that it extends. -/
lemma Extends.dependsOn {tokens : List Token} (hreg : Regular tokens) {child parent : List String}
    (h : Extends tokens child parent) :
    (graph (extensions tokens)).DependsOn (groupName child) (groupName parent) := by
  rw [dependsOn_iff_extends hreg, h.segments_child hreg, h.segments_parent]
  exact h

/-- Groups extend each other in a circle exactly if their texts do so in the graph. -/
lemma cyclic_graph_iff {tokens : List Token} (h : Regular tokens) :
    Cyclic (graph (extensions tokens)).DependsOn ↔ Cyclic (Extends tokens) := by
  constructor
  · rintro ⟨a, ha⟩
    exact ⟨segments a, ha.lift segments fun _ _ hab => (dependsOn_iff_extends h).mp hab⟩
  · rintro ⟨c, hc⟩
    exact ⟨groupName c, hc.lift groupName fun _ _ hcp => hcp.dependsOn h⟩

end Inheritance

end DesignTokens
