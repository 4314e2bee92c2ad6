import DesignTokens.Proofs.Inheritance
import DesignTokens.Proofs.Publication

/-!
# What inheritance adds

A batch is only added to: behind it stand copies, each of a token that stands before it
(`OnlyCopies`), and copies may be copied again. A group takes over nothing at a path where it has a
token, and its parent has at most one token to copy for each path, so paths that were different stay
different (`DistinctPaths`). Both are kept by each group that is served, and so by all of them.
-/

namespace DesignTokens

namespace Inheritance

open Relation Workspace

/-! ## Copies -/

/-- The second token is a copy of the first for a group: all but its name and path is the same, its
path leads from the group on as the first one's path ends, and the name is that of the path. -/
structure IsCopy (group : String) (source copy : Token) : Prop where
  eq_source : copy = { source with name := copy.name, path := copy.path }
  name_eq : copy.name = Text.join "-" copy.path
  path_eq : ∃ lead rest, rest ≠ [] ∧ source.path = lead ++ rest ∧
    copy.path = segments group ++ rest
  marker_eq : copy.isExtendsMarker = false

/-- What a group inherits are copies of tokens of the batch. -/
lemma isCopy_of_mem_inherited {tokens : List Token} {e : Extension} {t : Token}
    (ht : t ∈ inherited tokens e) : ∃ s ∈ tokens, IsCopy e.child s t := by
  obtain ⟨s, hsource, rfl⟩ := List.mem_map.mp ht
  obtain ⟨hmember, htaken⟩ := List.mem_filter.mp hsource
  obtain ⟨hs, hmarker⟩ := List.mem_filter.mp hmember
  simp only [Bool.and_eq_true, Bool.not_eq_true', decide_eq_true_eq] at htaken hmarker
  set depth := (segments e.parent).length
  have hrest : s.path.drop depth ≠ [] := by
    rw [ne_eq, List.drop_eq_nil_iff]
    exact Nat.not_le.mpr htaken.1.1
  have hpath : s.path = s.path.take depth ++ s.path.drop depth := (List.take_append_drop ..).symm
  refine ⟨s, hs, rfl, rfl, ⟨_, _, hrest, hpath, rfl⟩, ?_⟩
  rw [isExtendsMarker_moved hrest hpath]
  exact hmarker.1

/-- From place `n` on, each token is a copy of one that stands before it, for a group of the
extensions `all`. -/
def OnlyCopies (all : List Extension) (n : Nat) (tokens : List Token) : Prop :=
  ∀ i t, n ≤ i → tokens[i]? = some t →
    ∃ j s, j < i ∧ tokens[j]? = some s ∧ ∃ e ∈ all, IsCopy e.child s t

/-- Before any group inherits there are no copies. -/
lemma onlyCopies_length (all : List Extension) (tokens : List Token) :
    OnlyCopies all tokens.length tokens := by
  intro i t hi ht
  rw [List.getElem?_eq_none hi] at ht
  cases ht

/-- One more group only adds copies. -/
lemma OnlyCopies.inherited {all : List Extension} {n : Nat} {tokens : List Token}
    (h : OnlyCopies all n tokens) {e : Extension} (he : e ∈ all) :
    OnlyCopies all n (tokens ++ inherited tokens e) := by
  intro i t hi ht
  -- An earlier copy keeps its source, a new one has it in the batch as it was.
  rcases Nat.lt_or_ge i tokens.length with hlt | hge
  · rw [List.getElem?_append_left hlt] at ht
    obtain ⟨j, s, hj, hs, hcopy⟩ := h i t hi ht
    exact ⟨j, s, hj, by rw [List.getElem?_append_left (hj.trans hlt), hs], hcopy⟩
  · rw [List.getElem?_append_right hge] at ht
    obtain ⟨s, hs, hcopy⟩ := isCopy_of_mem_inherited (List.mem_of_getElem? ht)
    obtain ⟨j, hj, hjs⟩ := List.mem_iff_getElem.mp hs
    refine ⟨j, s, hj.trans_le hge, ?_, e, he, hcopy⟩
    rw [List.getElem?_append_left hj, List.getElem?_eq_getElem hj, hjs]

/-- The tokens that inheritance adds are copies. -/
lemma OnlyCopies.inheritAll {all : List Extension} {n : Nat} {tokens : List Token}
    (h : OnlyCopies all n tokens) (groups : List String) :
    OnlyCopies all n (inheritAll all groups tokens) := by
  induction groups generalizing tokens with
  | nil => exact h
  | cons group groups ih =>
    unfold Inheritance.inheritAll
    split
    · exact ih h
    · next e hfind => exact ih (h.inherited (List.mem_of_find?_eq_some hfind))

/-! ## Different paths -/

/-- No two tokens but markers have one path. -/
def DistinctPaths (tokens : List Token) : Prop :=
  ((withoutMarkers tokens).map Token.path).Nodup

instance (tokens : List Token) : Decidable (DistinctPaths tokens) :=
  inferInstanceAs (Decidable (List.Nodup _))

/-- Paths are distinct if at most one token is at each. -/
lemma distinctPaths_iff {tokens : List Token} :
    DistinctPaths tokens ↔ ∀ path, (tokensAt tokens path).length ≤ 1 := by
  rw [DistinctPaths, List.nodup_iff_count_le_one]
  refine forall_congr' fun path => ?_
  have hcount : ((withoutMarkers tokens).map Token.path).count path =
      (tokensAt tokens path).length := by
    rw [List.count, List.countP_map, withoutMarkers, List.countP_filter, tokensAt,
      ← List.countP_eq_length_filter]
    refine List.countP_congr fun t _ => ?_
    simp [and_comm]
  rw [hcount]

/-- What a group inherits at a path: nothing, or the copies of what its parent has at one path, and
then the group has nothing there itself. -/
lemma tokensAt_inherited_cases {tokens : List Token} (hplain : ∀ t ∈ tokens, Plain t.path)
    (e : Extension) (path : List String) :
    tokensAt (inherited tokens e) path = [] ∨
      tokensAt tokens path = [] ∧ ∃ source, tokensAt (inherited tokens e) path =
        (tokensAt tokens source).map fun t => moved t path := by
  by_cases hgroup : ∃ r, r ≠ [] ∧ path = segments e.child ++ r
  · obtain ⟨r, hr, rfl⟩ := hgroup
    rw [tokensAt_inherited hplain e hr]
    split_ifs with hskip
    · exact .inl rfl
    · refine .inr ⟨?_, _, rfl⟩
      by_contra hown
      exact hskip (.inl ((mem_ownPaths hplain).mpr ⟨hr, hown⟩))
  · -- Each copy lies below the group.
    refine .inl (List.eq_nil_iff_forall_not_mem.mpr fun t ht => hgroup ?_)
    obtain ⟨hmem, -, rfl⟩ := mem_tokensAt.mp ht
    obtain ⟨_, -, hcopy⟩ := isCopy_of_mem_inherited hmem
    obtain ⟨_, rest, hrest, -, hpath⟩ := hcopy.path_eq
    exact ⟨rest, hrest, hpath⟩

/-- One more group keeps paths different. -/
lemma DistinctPaths.inherited {tokens : List Token} (h : DistinctPaths tokens)
    (hplain : ∀ t ∈ tokens, Plain t.path) (e : Extension) :
    DistinctPaths (tokens ++ inherited tokens e) := by
  rw [distinctPaths_iff] at h ⊢
  intro path
  rw [tokensAt_append, List.length_append]
  -- The path has tokens of the batch or new ones, never both.
  rcases tokensAt_inherited_cases hplain e path with hnone | ⟨hown, source, hcopies⟩
  · rw [hnone]
    exact h path
  · rw [hown, hcopies, List.length_map, List.length_nil, Nat.zero_add]
    exact h source

/-- Inheritance keeps paths distinct. -/
lemma DistinctPaths.inheritAll {all : List Extension} {tokens : List Token}
    (h : DistinctPaths tokens) (hplain : ∀ t ∈ tokens, Plain t.path) (groups : List String) :
    DistinctPaths (inheritAll all groups tokens) := by
  induction groups generalizing tokens with
  | nil => exact h
  | cons group groups ih =>
    unfold Inheritance.inheritAll
    split
    · exact ih h hplain
    · next e _ =>
      refine ih (h.inherited hplain e) fun t ht => ?_
      rcases List.mem_append.mp ht with ht | ht
      · exact hplain t ht
      · exact plain_inherited hplain e t ht

/-! ## Whole batches -/

lemma Declares.exists_marker {tokens : List Token} {child parent : String}
    (h : Declares tokens child parent) :
    ∃ t ∈ tokens, t.isExtendsMarker = true ∧ t.version = .v2025_10 := by
  obtain ⟨t, hfind, -⟩ := Option.map_eq_some_iff.mp h
  have hmarker := List.find?_some hfind
  rw [decide_eq_true_eq] at hmarker
  exact ⟨t, List.mem_reverse.mp (List.mem_of_find?_eq_some hfind), hmarker.1, hmarker.2.1⟩

/-- An extension that is found is declared. -/
lemma declares_of_mem {tokens : List Token} {e : Extension} (he : e ∈ extensions tokens) :
    Declares tokens e.child e.parent := by
  rw [← dependsOn_iff_declares, graph_eq_build, Graph.dependsOn_build]
  exact List.mem_map_of_mem he

/-- A batch is refused, and that for a circle, exactly if markers of the release declare groups to
extend each other in a circle. Any other batch is kept as it is and followed by copies: each is no
marker, is a token that stands before it in all but name and path, has the name of its path, and its
path leads from a group that extends another on as that token's path ends. If no segment of a path
holds a slash and no two tokens but markers have one path, that stays so. -/
theorem expand_adds_copies (tokens : List Token) :
    ((∃ cycle, expand tokens = .error (.circular cycle)) ↔
      (∃ t ∈ tokens, t.isExtendsMarker = true ∧ t.version = .v2025_10) ∧
        Cyclic (Declares tokens)) ∧
    (¬ ((∃ t ∈ tokens, t.isExtendsMarker = true ∧ t.version = .v2025_10) ∧
        Cyclic (Declares tokens)) →
      ∃ out, expand tokens = .ok out ∧ tokens <+: out ∧
        (∀ i t, tokens.length ≤ i → out[i]? = some t →
          t.isExtendsMarker = false ∧ t.name = Text.join "-" t.path ∧
          ∃ j s child parent lead rest, j < i ∧ out[j]? = some s ∧
            t = { s with name := t.name, path := t.path } ∧
            Declares tokens child parent ∧ rest ≠ [] ∧ s.path = lead ++ rest ∧
            t.path = segments child ++ rest) ∧
        ((∀ t ∈ tokens, Plain t.path) → DistinctPaths tokens → DistinctPaths out)) := by
  -- A circle has a marker, so the first condition adds nothing to the second.
  have hcircle : ((∃ t ∈ tokens, t.isExtendsMarker = true ∧ t.version = .v2025_10) ∧
      Cyclic (Declares tokens)) ↔ Cyclic (Declares tokens) := by
    refine and_iff_right_of_imp ?_
    rintro ⟨a, ha⟩
    obtain ⟨b, hab, -⟩ := TransGen.head'_iff.mp ha
    exact hab.exists_marker
  rw [hcircle]
  rcases expand_cases tokens with ⟨hcyclic, herror⟩ | ⟨hacyclic, out, hok, hbegins, -⟩
  · exact ⟨iff_of_true herror hcyclic, fun h => absurd hcyclic h⟩
  · refine ⟨iff_of_false ?_ hacyclic, fun _ => ⟨out, hok, hbegins, ?_, ?_⟩⟩
    · rw [hok]
      rintro ⟨cycle, h⟩
      cases h
    · obtain ⟨groups, -, rfl⟩ := expand_eq_ok hok
      intro i t hi ht
      obtain ⟨j, s, hj, hs, e, he, hcopy⟩ :=
        (onlyCopies_length (extensions tokens) tokens).inheritAll groups i t hi ht
      obtain ⟨lead, rest, hrest, hlead, hpath⟩ := hcopy.path_eq
      exact ⟨hcopy.marker_eq, hcopy.name_eq, j, s, e.child, e.parent, lead, rest, hj, hs,
        hcopy.eq_source, declares_of_mem he, hrest, hlead, hpath⟩
    · obtain ⟨groups, -, rfl⟩ := expand_eq_ok hok
      exact fun hplain hdistinct => hdistinct.inheritAll hplain groups

/-- What the chain of groups is followed by: the last is a copy of the first. -/
def chainCopies : List Token :=
  [{ name := "brand-unit", path := ["brand", "unit"], value := "8px" },
   { name := "product-logo", path := ["product", "logo"], value := "navy" },
   { name := "product-unit", path := ["product", "unit"], value := "8px" }]

theorem expand_adds_copies_chain :
    (∀ t ∈ chainBatch, Plain t.path) ∧ DistinctPaths chainBatch ∧
      ¬ ((∃ t ∈ chainBatch, t.isExtendsMarker = true ∧ t.version = .v2025_10) ∧
        Cyclic (Declares chainBatch)) ∧
      expand chainBatch = .ok (chainBatch ++ chainCopies) ∧
      (∃ s child parent lead rest, s ∈ (chainBatch ++ chainCopies).take 9 ∧
        Declares chainBatch child parent ∧ rest ≠ [] ∧ s.path = lead ++ rest ∧
        ["product", "unit"] = segments child ++ rest) ∧
      DistinctPaths (chainBatch ++ chainCopies) := by
  have hplain : ∀ t ∈ chainBatch, Plain t.path := by decide +kernel
  have hdistinct : DistinctPaths chainBatch := by decide +kernel
  have hok : expand chainBatch = .ok (chainBatch ++ chainCopies) := rfl
  obtain ⟨hcircle, hcopies⟩ := expand_adds_copies chainBatch
  have hacyclic := mt hcircle.mpr (not_exists.mpr fun cycle herror => by
    cases hok.symm.trans herror)
  obtain ⟨out, hout, -, hcopy, hkeeps⟩ := hcopies hacyclic
  cases hok.symm.trans hout
  obtain ⟨-, -, j, s, child, parent, lead, rest, hj, hs, -, hdeclares, hrest, hlead, hpath⟩ :=
    hcopy 9 _ (by decide) rfl
  have hmem : s ∈ (chainBatch ++ chainCopies).take 9 :=
    List.mem_of_getElem? (by rw [List.getElem?_take_of_lt hj, hs])
  exact ⟨hplain, hdistinct, hacyclic, hok,
    ⟨s, child, parent, lead, rest, hmem, hdeclares, hrest, hlead, hpath⟩, hkeeps hplain hdistinct⟩

end Inheritance

end DesignTokens
