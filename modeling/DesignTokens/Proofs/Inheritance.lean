import DesignTokens.Proofs.GroupPaths

/-!
# What groups inherit

Groups are served one after the other, and each adds copies of what its parent has at that moment.
What a group adds lies in the group (`tokensAt_inherited_outside`), so the tokens at a path
only change while a group around the path is served.

* If no group of an extension lies inside another, a group is complete when it has been served, and
  the order of the extension graph serves it before its children. Each group then has at each
  relative path the tokens of the nearest group, from itself upward, that defines the path
  (`expand_nearest`).
* The order knows nothing of groups inside groups. A group misses what a subgroup of its parent
  inherits later, and it misses nothing else (`expand_inherits_or_late`).
-/

namespace DesignTokens

namespace Inheritance

open Relation

/-! ## Tokens by path -/

/-- The tokens at a path, markers aside. -/
def tokensAt (tokens : List Token) (path : List String) : List Token :=
  tokens.filter fun t => !t.isExtendsMarker && t.path = path

lemma mem_tokensAt {tokens : List Token} {path : List String} {t : Token} :
    t ∈ tokensAt tokens path ↔ t ∈ tokens ∧ t.isExtendsMarker = false ∧ t.path = path := by
  simp [tokensAt, List.mem_filter]

lemma tokensAt_append (tokens tokens' : List Token) (path : List String) :
    tokensAt (tokens ++ tokens') path = tokensAt tokens path ++ tokensAt tokens' path :=
  List.filter_append ..

/-- Paths that begin with another path and are longer. -/
lemma longer_iff {lead path r : List String} :
    lead <+: path ∧ lead.length < path.length ∧ path.drop lead.length = r ↔
      r ≠ [] ∧ path = lead ++ r := by
  constructor
  · rintro ⟨⟨rest, rfl⟩, hlen, rfl⟩
    rw [List.drop_left]
    refine ⟨?_, rfl⟩
    rintro rfl
    simp at hlen
  · rintro ⟨hr, rfl⟩
    refine ⟨List.prefix_append _ _, ?_, List.drop_left⟩
    rw [List.length_append]
    exact Nat.lt_add_of_pos_right (List.length_pos_of_ne_nil hr)

lemma members_eq_filter {tokens : List Token} (hplain : ∀ t ∈ tokens, Plain t.path)
    (group : String) :
    members tokens group =
      tokens.filter fun t => !t.isExtendsMarker && decide (segments group <+: t.path) := by
  refine List.filter_congr fun t ht => ?_
  congr 1
  rw [Bool.eq_iff_iff, decide_eq_true_eq, inGroup_iff (hplain t ht)]

/-- A group has tokens of its own at the relative paths where the batch has some. -/
lemma mem_ownPaths {tokens : List Token} (hplain : ∀ t ∈ tokens, Plain t.path) {group : String}
    {r : List String} :
    r ∈ ownPaths tokens group ↔ r ≠ [] ∧ tokensAt tokens (segments group ++ r) ≠ [] := by
  simp only [ownPaths, members_eq_filter hplain, List.mem_map, List.mem_filter, Bool.and_eq_true,
    Bool.not_eq_true', decide_eq_true_eq]
  constructor
  · rintro ⟨t, ⟨⟨ht, hmarker, hbegins⟩, hlen⟩, hdrop⟩
    obtain ⟨hr, hpath⟩ := longer_iff.mp ⟨hbegins, hlen, hdrop⟩
    exact ⟨hr, List.ne_nil_of_mem (mem_tokensAt.mpr ⟨ht, hmarker, hpath⟩)⟩
  · rintro ⟨hr, hne⟩
    obtain ⟨t, ht⟩ := List.exists_mem_of_ne_nil _ hne
    obtain ⟨hmem, hmarker, hpath⟩ := mem_tokensAt.mp ht
    obtain ⟨hbegins, hlen, hdrop⟩ := longer_iff.mpr ⟨hr, hpath⟩
    exact ⟨t, ⟨⟨hmem, hmarker, hbegins⟩, hlen⟩, hdrop⟩

/-! ## What one group adds -/

/-- A copy is no marker unless its source is one. -/
lemma isExtendsMarker_moved {t : Token} {lead r : List String} (hr : r ≠ [])
    (hpath : t.path = lead ++ r) (child : List String) :
    (moved t (child ++ r)).isExtendsMarker = t.isExtendsMarker := by
  rw [Token.isExtendsMarker, Token.isExtendsMarker, hpath, moved,
    List.getLast?_append_of_ne_nil _ hr, List.getLast?_append_of_ne_nil _ hr]

/-- What a group adds lies in the group. -/
lemma tokensAt_inherited_outside {tokens : List Token} {e : Extension} {path : List String}
    (h : ¬ segments e.child <+: path) : tokensAt (inherited tokens e) path = [] := by
  rw [tokensAt, List.filter_eq_nil_iff]
  intro t ht
  obtain ⟨source, -, rfl⟩ := List.mem_map.mp ht
  rw [Bool.and_eq_true, decide_eq_true_eq]
  rintro ⟨-, rfl⟩
  exact h (List.prefix_append _ _)

/-- A group adds a copy of each token that its parent has at a relative path, unless the group has
tokens there or the parent's path leads into the group. -/
lemma tokensAt_inherited {tokens : List Token} (hplain : ∀ t ∈ tokens, Plain t.path)
    (e : Extension) {r : List String} (hr : r ≠ []) :
    tokensAt (inherited tokens e) (segments e.child ++ r) =
      if r ∈ ownPaths tokens e.child ∨ segments e.child <+: segments e.parent ++ r then []
      else (tokensAt tokens (segments e.parent ++ r)).map fun t =>
        moved t (segments e.child ++ r) := by
  set child := segments e.child
  set depth := (segments e.parent).length
  have hcopies : tokensAt (inherited tokens e) (child ++ r) =
      (tokens.filter fun t =>
        decide (¬ (r ∈ ownPaths tokens e.child ∨ child <+: segments e.parent ++ r)) &&
        (!t.isExtendsMarker && decide (t.path = segments e.parent ++ r))).map
          fun t => moved t (child ++ t.path.drop depth) := by
    rw [inherited, tokensAt, members_eq_filter hplain, List.filter_map, List.filter_filter,
      List.filter_filter]
    -- The source of a copy at `child ++ r` is a token that the parent has at `r`.
    refine congrArg (List.map _) (List.filter_congr fun t _ => ?_)
    rw [Bool.eq_iff_iff]
    simp only [Function.comp_apply, Bool.and_eq_true, Bool.not_eq_true', decide_eq_true_eq,
      ← Bool.not_eq_true, List.isPrefixOf_iff_prefix, not_or]
    constructor
    · rintro ⟨⟨⟨-, hmoved⟩, ⟨hlen, hchild⟩, hown⟩, hmarker, hbegins⟩
      have hdrop := List.append_cancel_left hmoved
      obtain ⟨-, hpath⟩ := longer_iff.mp ⟨hbegins, hlen, hdrop⟩
      rw [hdrop] at hown
      rw [hpath] at hchild
      exact ⟨⟨hown, hchild⟩, hmarker, hpath⟩
    · rintro ⟨⟨hown, hchild⟩, hmarker, hpath⟩
      obtain ⟨hbegins, hlen, hdrop⟩ := longer_iff.mpr ⟨hr, hpath⟩
      rw [hdrop, isExtendsMarker_moved hr hpath]
      exact ⟨⟨⟨hmarker, rfl⟩, ⟨hlen, hpath ▸ hchild⟩, hown⟩, hmarker, hbegins⟩
  rw [hcopies]
  split_ifs with hskip
  · simp [hskip]
  · simp only [hskip, not_false_eq_true, decide_true, Bool.true_and]
    refine List.map_congr_left fun t ht => ?_
    obtain ⟨-, -, hpath⟩ := mem_tokensAt.mp ht
    rw [hpath, List.drop_left]

/-- A group adds nothing where it has tokens. -/
lemma tokensAt_inherited_of_defined {tokens now : List Token} (hreg : Regular tokens)
    (hplain : ∀ t ∈ now, Plain t.path) {child parent r : List String}
    (hext : Extends tokens child parent) (hr : r ≠ []) (hdefined : tokensAt now (child ++ r) ≠ []) :
    tokensAt (inherited now ⟨groupName child, groupName parent⟩) (child ++ r) = [] := by
  have hadded := tokensAt_inherited hplain ⟨groupName child, groupName parent⟩ hr
  have hown : r ∈ ownPaths now (groupName child) := by
    rw [mem_ownPaths hplain, hext.segments_child hreg]
    exact ⟨hr, hdefined⟩
  rwa [if_pos (.inl hown), hext.segments_child hreg] at hadded

/-- Where a group has no tokens it adds copies of those of its parent. -/
lemma tokensAt_inherited_of_missing {tokens now : List Token} (hreg : Regular tokens)
    (hplain : ∀ t ∈ now, Plain t.path) {child parent r : List String}
    (hext : Extends tokens child parent) (hr : r ≠ []) (hmissing : tokensAt now (child ++ r) = [])
    (hout : ¬ child <+: parent ++ r) :
    tokensAt (inherited now ⟨groupName child, groupName parent⟩) (child ++ r)
      = (tokensAt now (parent ++ r)).map fun t => moved t (child ++ r) := by
  have hadded := tokensAt_inherited hplain ⟨groupName child, groupName parent⟩ hr
  have hown : r ∉ ownPaths now (groupName child) := by
    rw [mem_ownPaths hplain, hext.segments_child hreg]
    exact fun h => h.2 hmissing
  rw [hext.segments_child hreg, hext.segments_parent] at hadded
  rwa [if_neg (not_or.mpr ⟨hown, hout⟩)] at hadded

/-! ## What a run of groups adds -/

lemma plain_inherited {tokens : List Token} (hplain : ∀ t ∈ tokens, Plain t.path)
    (e : Extension) : ∀ t ∈ inherited tokens e, Plain t.path := by
  intro t ht
  obtain ⟨source, hsource, rfl⟩ := List.mem_map.mp ht
  have hmem : source ∈ tokens := (List.mem_filter.mp (List.mem_filter.mp hsource).1).1
  exact (plain_segments _).append ((hplain source hmem).sublist (List.drop_sublist _ _))

lemma inheritAll_append (all : List Extension) (front back : List String) (tokens : List Token) :
    inheritAll all (front ++ back) tokens = inheritAll all back (inheritAll all front tokens) := by
  induction front generalizing tokens with
  | nil => rfl
  | cons group front ih =>
    rw [List.cons_append, inheritAll, inheritAll]
    split
    · exact ih tokens
    · exact ih _

lemma plain_inheritAll {all : List Extension} {groups : List String} {tokens : List Token}
    (hplain : ∀ t ∈ tokens, Plain t.path) : ∀ t ∈ inheritAll all groups tokens, Plain t.path := by
  induction groups generalizing tokens with
  | nil => exact hplain
  | cons group groups ih =>
    unfold inheritAll
    split
    · exact ih hplain
    · next e _ =>
      refine ih fun t ht => ?_
      rcases List.mem_append.mp ht with ht | ht
      · exact hplain t ht
      · exact plain_inherited hplain e t ht

/-- Nothing is lost or moved. -/
lemma prefix_inheritAll (all : List Extension) (groups : List String) (tokens : List Token) :
    tokens <+: inheritAll all groups tokens := by
  induction groups generalizing tokens with
  | nil => exact List.prefix_rfl
  | cons group groups ih =>
    unfold inheritAll
    split
    · exact ih tokens
    · exact (List.prefix_append _ _).trans (ih _)

lemma tokensAt_ne_nil_mono {tokens tokens' : List Token} (h : tokens <+: tokens')
    {path : List String} (hne : tokensAt tokens path ≠ []) : tokensAt tokens' path ≠ [] := by
  obtain ⟨rest, rfl⟩ := h
  rw [tokensAt_append]
  exact List.append_ne_nil_of_left_ne_nil hne _

/-- The tokens at a path only change while a group around the path is served. -/
lemma tokensAt_inheritAll {all : List Extension} {groups : List String} {tokens : List Token}
    {path : List String}
    (h : ∀ e ∈ all, e.child ∈ groups → ¬ segments e.child <+: path) :
    tokensAt (inheritAll all groups tokens) path = tokensAt tokens path := by
  induction groups generalizing tokens with
  | nil => rfl
  | cons group groups ih =>
    have hrest := fun e he hmem => h e he (List.mem_cons_of_mem group hmem)
    unfold inheritAll
    split
    · exact ih hrest
    · next e hfind =>
      have hchild := List.find?_some hfind
      rw [decide_eq_true_eq] at hchild
      have hnot := h e (List.mem_of_find?_eq_some hfind) (hchild ▸ List.mem_cons_self ..)
      rw [ih hrest, tokensAt_append, tokensAt_inherited_outside hnot, List.append_nil]

/-! ## The turn of a group -/

/-- The turn of a group in the order: what is served before and after it, and what the output is
made of. -/
structure Turn (tokens : List Token) (child parent : List String) (front back : List String)
    (now out : List Token) : Prop where
  now_eq : now = inheritAll (extensions tokens) front tokens
  out_eq : out = inheritAll (extensions tokens) back
    (now ++ inherited now ⟨groupName child, groupName parent⟩)
  notMem_front : groupName child ∉ front
  notMem_back : groupName child ∉ back
  disjoint : ∀ group ∈ front, group ∉ back
  /-- All that the group extends, directly or through others, has been served. -/
  ancestors : ∀ group, TransGen (Extends tokens) child group → groupName group ∈ front

lemma expand_eq_ok {tokens out : List Token} (h : expand tokens = .ok out) :
    ∃ groups, (graph (extensions tokens)).order = .ok groups ∧
      out = inheritAll (extensions tokens) groups tokens := by
  unfold expand at h
  simp only at h
  split at h
  · cases h
  · next groups horder =>
    cases h
    exact ⟨groups, horder, rfl⟩

/-- What stands before a name in an order contains all that the name reaches. -/
lemma mem_front_of_transGen {g : Graph} {front back : List String} {a b : String}
    (h : TargetsFirst g.DependsOn [] (front ++ a :: back)) (hab : TransGen g.DependsOn a b) :
    b ∈ front := by
  induction hab with
  | single hab => exact (h.mem_front hab).resolve_left List.not_mem_nil
  | tail _ hbc ih =>
    obtain ⟨front', back', rfl⟩ := List.append_of_mem ih
    rw [List.append_assoc, List.cons_append] at h
    have hmem := (h.mem_front hbc).resolve_left List.not_mem_nil
    exact List.mem_append_left _ hmem

/-- Each group that extends another has its turn. -/
lemma exists_turn {tokens : List Token} (hreg : Regular tokens) {groups : List String}
    (horder : (graph (extensions tokens)).order = .ok groups) {child parent : List String}
    (hext : Extends tokens child parent) :
    ∃ front back now, groups = front ++ groupName child :: back ∧
      Turn tokens child parent front back now (inheritAll (extensions tokens) groups tokens) := by
  obtain ⟨-, hisOrder⟩ := Graph.isOrder_of_order horder
  have hmem : groupName child ∈ groups :=
    (hisOrder.mem_iff _).mpr (hext.dependsOn hreg).dependent_mem
  obtain ⟨front, back, rfl⟩ := List.append_of_mem hmem
  obtain ⟨-, hback, hapart⟩ := List.nodup_append.mp hisOrder.nodup
  have hfind : (extensions tokens).find? (fun e => e.child = groupName child) =
      some ⟨groupName child, groupName parent⟩ := by
    rw [find?_extensions hreg, hext.segments_child hreg,
      show parent? tokens child = some parent from hext, Option.map_some]
  refine ⟨front, back, _, rfl, rfl, ?_, ?_, (List.nodup_cons.mp hback).1, ?_, ?_⟩
  · rw [inheritAll_append, inheritAll, hfind]
  · exact fun h => hapart _ h _ (List.mem_cons_self ..) rfl
  · exact fun group hfront h => hapart _ hfront _ (List.mem_cons_of_mem _ h) rfl
  · intro group hgroup
    refine mem_front_of_transGen hisOrder.targetsFirst ?_
    exact hgroup.lift groupName fun _ _ h => h.dependsOn hreg

section Turn

variable {tokens now out : List Token} {child parent r : List String} {front back : List String}
  (hreg : Regular tokens) (hext : Extends tokens child parent)
  (h : Turn tokens child parent front back now out)

include hreg h in
lemma Turn.plain : ∀ t ∈ now, Plain t.path := by
  rw [h.now_eq]
  exact plain_inheritAll hreg.plain

include hreg hext h in
/-- What the group's parent has when the group is served, the group has afterwards. -/
lemma Turn.inherits (hr : r ≠ []) (hparent : tokensAt now (parent ++ r) ≠ [])
    (hout : ¬ child <+: parent ++ r) : tokensAt out (child ++ r) ≠ [] := by
  rw [h.out_eq]
  refine tokensAt_ne_nil_mono (prefix_inheritAll _ _ _) ?_
  rw [tokensAt_append]
  by_cases hmissing : tokensAt now (child ++ r) = []
  · refine List.append_ne_nil_of_right_ne_nil _ ?_
    rw [tokensAt_inherited_of_missing hreg (h.plain hreg) hext hr hmissing hout, ne_eq,
      List.map_eq_nil_iff]
    exact hparent
  · exact List.append_ne_nil_of_left_ne_nil hmissing _

include hreg hext h in
/-- What the group's parent has only after the group was served lies in a group that is served
later. -/
lemma Turn.exists_late (hnow : tokensAt now (parent ++ r) = [])
    (hparent : tokensAt out (parent ++ r) ≠ []) (hout : ¬ child <+: parent ++ r) :
    ∃ late source, Extends tokens late source ∧ late <+: parent ++ r ∧ groupName late ∈ back := by
  by_contra hno
  -- Then neither the group itself nor any later one adds something there.
  have houtside : ∀ e ∈ extensions tokens, e.child ∈ back →
      ¬ segments e.child <+: parent ++ r := by
    intro e he hback hbegins
    refine hno ⟨_, _, (mem_extensions hreg).mp he, hbegins, ?_⟩
    rwa [groupName_segments]
  refine hparent ?_
  rw [h.out_eq, tokensAt_inheritAll houtside, tokensAt_append, hnow, List.nil_append]
  refine tokensAt_inherited_outside ?_
  rwa [hext.segments_child hreg]

include h in
/-- A group that is served later is not among those that the group extends. -/
lemma Turn.not_reaches {late : List String} (hlate : groupName late ∈ back) :
    ¬ ReflTransGen (Extends tokens) child late := by
  intro hreach
  rcases reflTransGen_iff_eq_or_transGen.mp hreach with rfl | htrans
  · exact h.notMem_back hlate
  · exact h.disjoint _ (h.ancestors _ htrans) hlate

include h in
lemma Turn.idxOf_lt {late : String} (hlate : late ∈ back) :
    (front ++ groupName child :: back).idxOf (groupName child)
      < (front ++ groupName child :: back).idxOf late := by
  have hfront : late ∉ front := fun hmem => h.disjoint _ hmem hlate
  have hne : groupName child ≠ late := fun heq => h.notMem_back (heq ▸ hlate)
  rw [List.idxOf_append_of_notMem h.notMem_front, List.idxOf_append_of_notMem hfront,
    List.idxOf_cons_self, List.idxOf_cons_ne _ hne]
  omega

end Turn

/-! ## Groups that lie side by side -/

/-- The group extends another, or another extends it. -/
def Named (tokens : List Token) (group : List String) : Prop :=
  ∃ other, Extends tokens group other ∨ Extends tokens other group

/-- No group that an extension names lies inside another. -/
def Flat (tokens : List Token) : Prop :=
  ∀ group group', Named tokens group → Named tokens group' → group <+: group' → group = group'

/-- The nearest group, from the first one upward, that defines the relative path `r`. -/
inductive Nearest (tokens : List Token) (r : List String) : List String → List String → Prop
  | own {group : List String} (h : tokensAt tokens (group ++ r) ≠ []) : Nearest tokens r group group
  | up {child parent group : List String} (h : tokensAt tokens (child ++ r) = [])
      (hext : Extends tokens child parent) (hparent : Nearest tokens r parent group) :
      Nearest tokens r child group

section Flat

variable {tokens out : List Token} (hreg : Regular tokens) (hflat : Flat tokens)

include hflat in
/-- Of two groups side by side only one is around a path. -/
lemma Flat.eq_of_around {group group' r : List String} (hgroup : Named tokens group)
    (hgroup' : Named tokens group') (h : group' <+: group ++ r) : group' = group := by
  rcases List.prefix_or_prefix_of_prefix h (List.prefix_append group r) with hle | hle
  · exact hflat _ _ hgroup' hgroup hle
  · exact (hflat _ _ hgroup hgroup' hle).symm

include hreg hflat in
/-- A group only changes when it is served itself. -/
lemma tokensAt_inheritAll_of_flat {group r : List String} (hgroup : Named tokens group)
    {groups : List String} (hnot : ∀ parent, Extends tokens group parent → groupName group ∉ groups)
    (now : List Token) :
    tokensAt (inheritAll (extensions tokens) groups now) (group ++ r)
      = tokensAt now (group ++ r) := by
  refine tokensAt_inheritAll fun e he hmem hbegins => ?_
  have hext : Extends tokens (segments e.child) (segments e.parent) := (mem_extensions hreg).mp he
  have heq := hflat.eq_of_around hgroup ⟨_, .inl hext⟩ hbegins
  refine hnot _ (heq ▸ hext) ?_
  rwa [← heq, groupName_segments]

include hreg hflat in
/-- A group that extends none keeps its tokens. -/
lemma tokensAt_root (hok : expand tokens = .ok out) {group r : List String}
    (hgroup : Named tokens group) (hroot : ∀ parent, ¬ Extends tokens group parent) :
    tokensAt out (group ++ r) = tokensAt tokens (group ++ r) := by
  obtain ⟨groups, -, rfl⟩ := expand_eq_ok hok
  exact tokensAt_inheritAll_of_flat hreg hflat hgroup (fun _ hext => absurd hext (hroot _)) _

include hreg hflat in
/-- A group that extends another has its own tokens and, where it has none, copies of those that
its parent ends with. -/
lemma tokensAt_child (hok : expand tokens = .ok out) {child parent r : List String}
    (hext : Extends tokens child parent) (hr : r ≠ []) :
    (tokensAt tokens (child ++ r) ≠ [] →
      tokensAt out (child ++ r) = tokensAt tokens (child ++ r)) ∧
    (tokensAt tokens (child ++ r) = [] →
      tokensAt out (child ++ r)
        = (tokensAt out (parent ++ r)).map fun t => moved t (child ++ r)) := by
  obtain ⟨groups, horder, rfl⟩ := expand_eq_ok hok
  obtain ⟨front, back, now, -, hturn⟩ := exists_turn hreg horder hext
  set out := inheritAll (extensions tokens) groups tokens
  have hchild : Named tokens child := ⟨_, .inl hext⟩
  have hparent : Named tokens parent := ⟨_, .inr hext⟩
  have hplain := hturn.plain hreg
  -- The parent was served before, so the two are different groups.
  have hfront : groupName parent ∈ front := hturn.ancestors _ (.single hext)
  have hapart : ¬ child <+: parent ++ r := by
    intro hbegins
    have heq : child = parent := hflat.eq_of_around hparent hchild hbegins
    exact hturn.notMem_front (heq ▸ hfront)
  have hchildNow : tokensAt now (child ++ r) = tokensAt tokens (child ++ r) := by
    rw [hturn.now_eq]
    exact tokensAt_inheritAll_of_flat hreg hflat hchild (fun _ _ => hturn.notMem_front) _
  have hparentOut : tokensAt out (parent ++ r) = tokensAt now (parent ++ r) := by
    rw [hturn.out_eq, tokensAt_inheritAll_of_flat hreg hflat hparent
      (fun _ _ => hturn.disjoint _ hfront), tokensAt_append, tokensAt_inherited_outside,
      List.append_nil]
    rwa [hext.segments_child hreg]
  have hchildOut : tokensAt out (child ++ r) = tokensAt now (child ++ r) ++
      tokensAt (inherited now ⟨groupName child, groupName parent⟩) (child ++ r) := by
    rw [hturn.out_eq, tokensAt_inheritAll_of_flat hreg hflat hchild
      (fun _ _ => hturn.notMem_back), tokensAt_append]
  rw [hchildOut, hparentOut, ← hchildNow]
  constructor
  · intro hdefined
    rw [tokensAt_inherited_of_defined hreg hplain hext hr hdefined, List.append_nil]
  · intro hmissing
    rw [tokensAt_inherited_of_missing hreg hplain hext hr hmissing hapart, hmissing,
      List.nil_append]

include hreg hflat in
/-- Copies of what a group ends with are copies of what the nearest group defines. -/
lemma Nearest.map_moved (hok : expand tokens = .ok out) {group group' r : List String} (hr : r ≠ [])
    (h : Nearest tokens r group group') (hgroup : Named tokens group) (path : List String) :
    (tokensAt out (group ++ r)).map (fun t => moved t path)
      = (tokensAt tokens (group' ++ r)).map fun t => moved t path := by
  induction h with
  | @own group hdefined =>
    by_cases hroot : ∃ parent, Extends tokens group parent
    · obtain ⟨parent, hext⟩ := hroot
      rw [(tokensAt_child hreg hflat hok hext hr).1 hdefined]
    · rw [tokensAt_root hreg hflat hok hgroup (not_exists.mp hroot)]
  | up hmissing hext _ ih =>
    rw [(tokensAt_child hreg hflat hok hext hr).2 hmissing, List.map_map]
    exact ih ⟨_, .inr hext⟩

include hreg hflat in
/-- A group has nothing at a relative path that no group from it upward defines. -/
lemma tokensAt_of_not_nearest (hok : expand tokens = .ok out) {child parent r : List String}
    (hr : r ≠ []) (hext : Extends tokens child parent)
    (hnone : ∀ group, ¬ Nearest tokens r child group) : tokensAt out (child ++ r) = [] := by
  obtain ⟨groups, horder, -⟩ := expand_eq_ok hok
  obtain ⟨-, hisOrder⟩ := Graph.isOrder_of_order horder
  -- Along the order: a parent without anything at `r` leaves its children without anything there.
  have hall : ∀ a ∈ groups, Named tokens (segments a) →
      (∀ group, ¬ Nearest tokens r (segments a) group) → tokensAt out (segments a ++ r) = [] := by
    refine hisOrder.targetsFirst.forall_mem (by simp) fun a _ ih hnamed hnone => ?_
    have hmissing : tokensAt tokens (segments a ++ r) = [] :=
      of_not_not fun h => hnone _ (.own h)
    by_cases hroot : ∃ parent, Extends tokens (segments a) parent
    · obtain ⟨parent, hext⟩ := hroot
      have hdep := hext.dependsOn hreg
      rw [groupName_segments] at hdep
      have hparent := ih _ hdep
      rw [hext.segments_parent] at hparent
      rw [(tokensAt_child hreg hflat hok hext hr).2 hmissing,
        hparent ⟨_, .inr hext⟩ fun group h => hnone group (.up hmissing hext h), List.map_nil]
    · rw [tokensAt_root hreg hflat hok hnamed (not_exists.mp hroot), hmissing]
  have hmem : groupName child ∈ groups :=
    (hisOrder.mem_iff _).mpr (hext.dependsOn hreg).dependent_mem
  have hchild := hall _ hmem
  rw [hext.segments_child hreg] at hchild
  exact hchild ⟨_, .inl hext⟩ hnone

end Flat

/-- The nearest definition wins. If groups do not extend each other in a circle and lie side by
side, a batch is expanded. At each relative path a group then has exactly its own tokens or, where
it has none, one copy of each token that its parent has there; so it has copies of what the nearest
group upward defines there, or nothing if none does. -/
theorem expand_nearest (tokens : List Token) (hreg : Regular tokens)
    (hacyclic : ¬ Cyclic (Extends tokens)) (hflat : Flat tokens) :
    ∃ out, expand tokens = .ok out ∧
      ∀ child parent r, Extends tokens child parent → r ≠ [] →
        (tokensAt tokens (child ++ r) ≠ [] →
          tokensAt out (child ++ r) = tokensAt tokens (child ++ r)) ∧
        (tokensAt tokens (child ++ r) = [] →
          tokensAt out (child ++ r) = (tokensAt out (parent ++ r)).map fun t =>
            { t with path := child ++ r, name := Text.join "-" (child ++ r) }) ∧
        (tokensAt tokens (child ++ r) = [] → ∀ group, Nearest tokens r child group →
          tokensAt out (child ++ r) = (tokensAt tokens (group ++ r)).map fun t =>
            { t with path := child ++ r, name := Text.join "-" (child ++ r) }) ∧
        ((∀ group, ¬ Nearest tokens r child group) → tokensAt out (child ++ r) = []) := by
  have hgraph : ¬ Cyclic (graph (extensions tokens)).DependsOn :=
    mt (cyclic_graph_iff hreg).mp hacyclic
  have hok : expand tokens = .ok (inheritAll (extensions tokens)
      (graph (extensions tokens)).finishOrder tokens) := by
    rw [expand, Graph.order_of_not_cyclic hgraph]
  refine ⟨_, hok, fun child parent r hext hr => ?_⟩
  obtain ⟨hown, hinherited⟩ := tokensAt_child hreg hflat hok hext hr
  refine ⟨hown, hinherited, ?_, tokensAt_of_not_nearest hreg hflat hok hr hext⟩
  rintro hmissing group (hdefined | ⟨-, hext', hnearest⟩)
  · exact absurd hmissing hdefined
  · rw [(tokensAt_child hreg hflat hok hext' hr).2 hmissing]
    exact hnearest.map_moved hreg hflat hok hr ⟨_, .inr hext'⟩ _

/-- The groups that extensions name. -/
def groupPaths (tokens : List Token) : List (List String) :=
  (extensions tokens).flatMap fun e => [segments e.child, segments e.parent]

lemma Named.mem_groupPaths {tokens : List Token} (hreg : Regular tokens) {group : List String}
    (h : Named tokens group) : group ∈ groupPaths tokens := by
  have hext : ∀ {child parent : List String}, Extends tokens child parent →
      child ∈ groupPaths tokens ∧ parent ∈ groupPaths tokens := by
    intro child parent hext
    have hchild := hext.segments_child hreg
    have hparent := hext.segments_parent
    have hmem : ⟨groupName child, groupName parent⟩ ∈ extensions tokens := by
      rw [mem_extensions hreg, hchild, hparent]
      exact hext
    simp only [groupPaths, List.mem_flatMap]
    exact ⟨⟨_, hmem, by simp [hchild]⟩, ⟨_, hmem, by simp [hparent]⟩⟩
  obtain ⟨other, h | h⟩ := h
  · exact (hext h).1
  · exact (hext h).2

/-- A chain of groups, the last first. One group is declared to extend two groups, and a token of
the oldest group is redefined on the way. -/
def chainBatch : List Token :=
  [{ path := ["product", "$extends"], value := "#/brand", version := .v2025_10 },
   { path := ["brand", "$extends"], value := "#/nowhere", version := .v2025_10 },
   { path := ["brand", "$extends"], value := "#/theme", version := .v2025_10 },
   { name := "brand-logo", path := ["brand", "logo"], value := "navy" },
   { path := ["theme", "$extends"], value := "#/base", version := .v2025_10 },
   { name := "theme-unit", path := ["theme", "unit"], value := "8px" },
   { name := "base-unit", path := ["base", "unit"], value := "4px" }]

theorem expand_nearest_chain :
    Regular chainBatch ∧ ¬ Cyclic (Extends chainBatch) ∧ Flat chainBatch ∧
    ∃ out, expand chainBatch = .ok out ∧
      tokensAt out ["product", "unit"] =
        [{ name := "product-unit", path := ["product", "unit"], value := "8px" }] ∧
      tokensAt out ["theme", "unit"] = tokensAt chainBatch ["theme", "unit"] ∧
      tokensAt out ["product", "logo"] =
        [{ name := "product-logo", path := ["product", "logo"], value := "navy" }] :=
  have hreg : Regular chainBatch := ⟨by decide +kernel, by decide +kernel⟩
  have hacyclic : ¬ Cyclic (Extends chainBatch) :=
    mt (cyclic_graph_iff hreg).mpr (Graph.findCycle_eq_none.mp (by decide +kernel))
  have hside : ∀ g ∈ groupPaths chainBatch, ∀ g' ∈ groupPaths chainBatch, g <+: g' → g = g' := by
    decide +kernel
  have hflat : Flat chainBatch :=
    fun g g' hg hg' => hside g (hg.mem_groupPaths hreg) g' (hg'.mem_groupPaths hreg)
  have hproduct : Extends chainBatch ["product"] ["brand"] := by decide +kernel
  have hbrand : Extends chainBatch ["brand"] ["theme"] := by decide +kernel
  have htheme : Extends chainBatch ["theme"] ["base"] := by decide +kernel
  have hunit : Nearest chainBatch ["unit"] ["product"] ["theme"] :=
    .up rfl hproduct (.up rfl hbrand (.own (List.cons_ne_nil _ _)))
  have hlogo : Nearest chainBatch ["logo"] ["product"] ["brand"] :=
    .up rfl hproduct (.own (List.cons_ne_nil _ _))
  have ⟨out, hok, h⟩ := expand_nearest chainBatch hreg hacyclic hflat
  ⟨hreg, hacyclic, hflat, out, hok,
    (h _ _ ["unit"] hproduct (List.cons_ne_nil _ _)).2.2.1 rfl _ hunit,
    (h _ _ ["unit"] htheme (List.cons_ne_nil _ _)).1 (List.cons_ne_nil _ _),
    (h _ _ ["logo"] hproduct (List.cons_ne_nil _ _)).2.2.1 rfl _ hlogo⟩

/-! ## Groups inside groups -/

/-- Where groups may lie inside groups: a group has something at each relative path at which its
parent ends with a token outside of the group, unless that token was inherited by a group around it
that is served later. Such a group is not among those that the first one extends, directly or
through others, and the batch itself has nothing at that path. -/
theorem expand_inherits_or_late {tokens out : List Token} (hreg : Regular tokens)
    (hok : expand tokens = .ok out) {child parent r : List String}
    (hext : Extends tokens child parent) (hr : r ≠ []) (hout : ¬ child <+: parent ++ r)
    (hparent : tokensAt out (parent ++ r) ≠ []) :
    tokensAt out (child ++ r) ≠ [] ∨
    (tokensAt tokens (parent ++ r) = [] ∧
      ∃ groups late source, (graph (extensions tokens)).order = .ok groups ∧
        Extends tokens late source ∧ late <+: parent ++ r ∧
        ¬ ReflTransGen (Extends tokens) child late ∧
        groups.idxOf (groupName child) < groups.idxOf (groupName late)) := by
  obtain ⟨groups, horder, rfl⟩ := expand_eq_ok hok
  obtain ⟨front, back, now, hgroups, hturn⟩ := exists_turn hreg horder hext
  by_cases hnow : tokensAt now (parent ++ r) = []
  · obtain ⟨late, source, hlate, hbegins, hback⟩ :=
      hturn.exists_late hreg hext hnow hparent hout
    refine .inr ⟨?_, groups, late, source, horder, hlate, hbegins, hturn.not_reaches hback, ?_⟩
    · by_contra hne
      rw [hturn.now_eq] at hnow
      exact tokensAt_ne_nil_mono (prefix_inheritAll _ _ _) hne hnow
    · rw [hgroups]
      exact hturn.idxOf_lt hback
  · exact .inl (hturn.inherits hreg hext hr hnow hout)

/-- A group extends the parent of a group that extends a third one, in the order of a file. -/
def nestedBatch : List Token :=
  [{ name := "base-accent-$extends", path := ["base", "accent", "$extends"], value := "#/palette",
     version := .v2025_10 },
   { name := "palette-red", path := ["palette", "red"], value := "#f00", version := .v2025_10 },
   { name := "theme-$extends", path := ["theme", "$extends"], value := "#/base",
     version := .v2025_10 }]

/-- The copy in the inner group, which comes too late for the outer one. -/
def nestedCopy : Token :=
  { name := "base-accent-red", path := ["base", "accent", "red"], value := "#f00",
    version := .v2025_10 }

theorem expand_inherits_or_late_nested :
    Regular nestedBatch ∧ expand nestedBatch = .ok (nestedBatch ++ [nestedCopy]) ∧
    Extends nestedBatch ["theme"] ["base"] ∧ ¬ ["theme"] <+: ["base", "accent", "red"] ∧
    tokensAt (nestedBatch ++ [nestedCopy]) ["base", "accent", "red"] ≠ [] ∧
    tokensAt nestedBatch ["base", "accent", "red"] = [] ∧
    ∃ late source, Extends nestedBatch late source ∧ late <+: ["base", "accent", "red"] ∧
      ¬ ReflTransGen (Extends nestedBatch) ["theme"] late :=
  have hreg : Regular nestedBatch := ⟨by decide +kernel, by decide +kernel⟩
  have hok : expand nestedBatch = .ok (nestedBatch ++ [nestedCopy]) := rfl
  have hext : Extends nestedBatch ["theme"] ["base"] := by decide +kernel
  have hout : ¬ ["theme"] <+: ["base", "accent", "red"] := by decide
  have hparent : tokensAt (nestedBatch ++ [nestedCopy]) ["base", "accent", "red"] ≠ [] :=
    List.cons_ne_nil _ _
  have hlate := (expand_inherits_or_late hreg hok hext (List.cons_ne_nil "accent" ["red"]) hout
    hparent).resolve_left (not_not.mpr rfl)
  have ⟨hnone, _, late, source, _, hextLate, hbegins, hreach, _⟩ := hlate
  ⟨hreg, hok, hext, hout, hparent, hnone, late, source, hextLate, hbegins, hreach⟩

/-- What is inherited depends on the order of the markers: in the order of `nestedBatch` the group
does not get what the inner group of its parent inherits, in the reverse order it does. -/
theorem expand_misses_nested :
    Regular nestedBatch ∧ Extends nestedBatch ["theme"] ["base"] ∧
    (∃ out, expand nestedBatch = .ok out ∧
      tokensAt out (["base"] ++ ["accent", "red"]) ≠ [] ∧
      ¬ ["theme"] <+: ["base"] ++ ["accent", "red"] ∧
      tokensAt out (["theme"] ++ ["accent", "red"]) = []) ∧
    ∃ out, expand nestedBatch.reverse = .ok out ∧
      tokensAt out (["theme"] ++ ["accent", "red"]) ≠ [] :=
  have hreg : Regular nestedBatch := ⟨by decide +kernel, by decide +kernel⟩
  ⟨hreg, by decide +kernel,
    ⟨nestedBatch ++ [nestedCopy], rfl, List.cons_ne_nil _ _, by decide, rfl⟩,
    ⟨_, rfl, List.cons_ne_nil _ _⟩⟩

end Inheritance

end DesignTokens
