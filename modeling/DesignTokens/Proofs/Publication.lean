import DesignTokens.Proofs.Inheritance
import DesignTokens.Proofs.Registry
import DesignTokens.Proofs.Resolution
import DesignTokens.Workspace
import Mathlib.Data.List.Dedup

/-!
# What is published

A registry that is made from a list has one token for each key, the last one of the list
(`Registry.qualified?_ofList`), in the order in which the keys come up. So it depends on the list
only through the keys and the last token of each (`Registry.toList_ofList_congr`), and it is as
long as the list exactly if no key comes up twice (`Registry.size_ofList_eq_length`).

A batch is resolved unless groups extend each other or tokens refer to each other in a circle
(`Workspace.resolveBatch_cases`). If it is, the tokens of the batch come first in what is published,
each as it was but for its resolved value. If it is not, each token takes over the value that the
registry holds for its file, name and text (`Workspace.carryOver_cases`); to do that again changes
nothing (`Workspace.toList_republished`).
-/

namespace DesignTokens

namespace Registry

/-! ## The registry of a list -/

/-- The last token of a list with a key. -/
def last? (tokens : List Token) (k : TokenKey) : Option Token :=
  tokens.reverse.find? fun t => t.key = k

/-- One more token is the last with its key. -/
lemma last?_concat (tokens : List Token) (t : Token) (k : TokenKey) :
    last? (tokens ++ [t]) k = if t.key = k then some t else last? tokens k := by
  unfold last?
  rw [List.reverse_append, List.reverse_singleton, List.singleton_append, List.find?_cons]
  by_cases h : t.key = k
  · simp [h]
  · simp [h]

lemma of_last?_eq_some {tokens : List Token} {k : TokenKey} {t : Token}
    (h : last? tokens k = some t) : t ∈ tokens ∧ t.key = k := by
  have hmem := List.mem_reverse.mp (List.mem_of_find?_eq_some h)
  have hkey := List.find?_some h
  exact ⟨hmem, of_decide_eq_true hkey⟩

lemma last?_eq_none {tokens : List Token} {k : TokenKey} :
    last? tokens k = none ↔ ∀ t ∈ tokens, t.key ≠ k := by
  simp [last?, List.find?_eq_none]

/-- A change that keeps the keys is made to the last tokens too. -/
lemma last?_map {f : Token → Token} (hf : ∀ t, (f t).key = t.key) (tokens : List Token)
    (k : TokenKey) : last? (tokens.map f) k = (last? tokens k).map f := by
  unfold last?
  rw [← List.map_reverse, List.find?_map]
  refine congrArg (fun p => (tokens.reverse.find? p).map f) ?_
  funext t
  rw [Function.comp_apply, hf]

/-- A token that takes the place of one with its key changes no key. -/
lemma key_replaced (t u : Token) : (if u.key = t.key then t else u).key = u.key := by
  split_ifs with h
  · exact h.symm
  · rfl

/-- Inserting a token adds its key at the end if it is new. -/
lemma map_key_inserted (tokens : List Token) (t : Token) :
    (inserted tokens t).map Token.key =
      if t.key ∈ tokens.map Token.key then tokens.map Token.key
      else tokens.map Token.key ++ [t.key] := by
  have hiff : (∃ u ∈ tokens, u.key = t.key) ↔ t.key ∈ tokens.map Token.key := by
    rw [List.mem_map]
  unfold inserted
  by_cases h : t.key ∈ tokens.map Token.key
  · rw [if_pos (hiff.mpr h), if_pos h, List.map_map]
    exact List.map_congr_left fun u _ => key_replaced t u
  · rw [if_neg (mt hiff.mp h), if_neg h, List.map_append]
    rfl

/-- An inserted token is found under its key, and the others are found as before. -/
lemma find?_inserted (tokens : List Token) (t : Token) (k : TokenKey) :
    (inserted tokens t).find? (fun u => u.key = k) =
      if t.key = k then some t else tokens.find? fun u => u.key = k := by
  unfold inserted
  by_cases h : ∃ u ∈ tokens, u.key = t.key
  · have hsame : (fun u : Token => decide (u.key = k)) ∘
        (fun u => if u.key = t.key then t else u) = fun u => decide (u.key = k) := by
      funext u
      rw [Function.comp_apply, key_replaced]
    rw [if_pos h, List.find?_map, hsame]
    cases hfind : tokens.find? fun u => decide (u.key = k) with
    | none =>
      have hk : t.key ≠ k := by
        rintro rfl
        obtain ⟨u, hu, hkey⟩ := h
        exact absurd (decide_eq_true hkey) (List.find?_eq_none.mp hfind u hu)
      rw [if_neg hk, Option.map_none]
    | some u =>
      have hu : u.key = k := by simpa using List.find?_some hfind
      rw [Option.map_some, hu]
      by_cases hk : t.key = k
      · rw [if_pos hk, if_pos hk.symm]
      · rw [if_neg hk, if_neg (Ne.symm hk)]
  · rw [if_neg h, List.find?_append]
    by_cases hk : t.key = k
    · have hnone : tokens.find? (fun u => decide (u.key = k)) = none := by
        rw [List.find?_eq_none]
        intro u hu
        rw [decide_eq_true_eq, ← hk]
        exact fun hkey => h ⟨u, hu, hkey⟩
      simp [hnone, hk]
    · simp [hk]

lemma valid_ofList (tokens : List Token) : Valid (ofList tokens) :=
  (foldl_put valid_empty tokens).1

lemma toList_ofList_concat (tokens : List Token) (t : Token) :
    (ofList (tokens ++ [t])).toList = inserted (ofList tokens).toList t := by
  have hput : ofList (tokens ++ [t]) = (ofList tokens).put t := by
    rw [ofList, List.foldl_append]
    rfl
  rw [hput, toList_put (valid_ofList tokens)]

/-- Under a key stands the last token of the list that has it. -/
lemma find?_toList_ofList (tokens : List Token) (k : TokenKey) :
    (ofList tokens).toList.find? (fun t => t.key = k) = last? tokens k := by
  induction tokens using List.reverseRecOn with
  | nil => rfl
  | append_singleton tokens t ih =>
    rw [toList_ofList_concat, find?_inserted, last?_concat, ih]

/-- Of tokens with the same key the last one is found. -/
lemma qualified?_ofList (tokens : List Token) (name file : String) :
    (ofList tokens).qualified? name file = last? tokens ⟨file, name⟩ := by
  rw [(valid_ofList tokens).qualified?_eq, ← find?_toList_ofList]
  simp only [Token.key_eq_iff]

/-- If keys are distinct, every token is the last with its key. -/
lemma last?_of_nodup {tokens : List Token} (h : (tokens.map Token.key).Nodup) {t : Token}
    (ht : t ∈ tokens) : last? tokens t.key = some t := by
  have hreverse : (tokens.reverse.map Token.key).Nodup := by
    rwa [List.map_reverse, List.nodup_reverse]
  exact find?_of_nodup_map hreverse (List.mem_reverse.mpr ht)

lemma exists_last?_of_mem {tokens : List Token} {t : Token} (ht : t ∈ tokens) :
    ∃ s, last? tokens t.key = some s := by
  rw [← Option.isSome_iff_exists, Option.isSome_iff_ne_none]
  exact fun hnone => last?_eq_none.mp hnone t ht rfl

/-- A registry has, of the list it is made from, the last token with each key. -/
lemma mem_toList_ofList {tokens : List Token} {t : Token} :
    t ∈ (ofList tokens).toList ↔ last? tokens t.key = some t := by
  rw [← find?_toList_ofList]
  constructor
  · exact find?_of_nodup_map (valid_ofList tokens).nodup
  · exact List.mem_of_find?_eq_some

/-- The keys come in the order in which they first come up. -/
lemma map_key_toList_ofList (tokens : List Token) :
    (ofList tokens).toList.map Token.key = (tokens.map Token.key).reverse.dedup.reverse := by
  induction tokens using List.reverseRecOn with
  | nil => rfl
  | append_singleton tokens t ih =>
    rw [toList_ofList_concat, map_key_inserted, ih, List.map_append, List.reverse_append,
      List.map_singleton, List.reverse_singleton, List.singleton_append, List.dedup_cons]
    by_cases h : t.key ∈ tokens.map Token.key
    · simp [h]
    · simp [h]

/-- The registry of a list is known from the keys of the list and the last token of each. -/
lemma toList_ofList_congr {tokens tokens' : List Token}
    (hkeys : tokens.map Token.key = tokens'.map Token.key)
    (hlast : ∀ k, last? tokens k = last? tokens' k) :
    (ofList tokens).toList = (ofList tokens').toList := by
  have hmap : (ofList tokens).toList.map Token.key = (ofList tokens').toList.map Token.key := by
    rw [map_key_toList_ofList, map_key_toList_ofList, hkeys]
  refine List.ext_getElem (by simpa using congrArg List.length hmap) fun i hi hi' => ?_
  -- Both tokens at a place are the last ones with the key that is at this place.
  have hkey : (ofList tokens).toList[i].key = (ofList tokens').toList[i].key := by
    have := congrArg (fun keys : List TokenKey => keys[i]?) hmap
    simpa [hi, hi'] using this
  have ht := mem_toList_ofList.mp (List.getElem_mem hi)
  have ht' := mem_toList_ofList.mp (List.getElem_mem hi')
  rw [hkey, hlast, ht'] at ht
  exact (Option.some.inj ht).symm

/-- The registry of a list has as many tokens as the list has different keys. -/
lemma size_ofList (tokens : List Token) :
    (ofList tokens).size = (tokens.map Token.key).reverse.dedup.length := by
  rw [(valid_ofList tokens).size_eq, ← List.length_map Token.key, map_key_toList_ofList,
    List.length_reverse]

/-- A registry has no more tokens than the list it is made from. -/
lemma size_ofList_le (tokens : List Token) : (ofList tokens).size ≤ tokens.length := by
  have hle := (List.dedup_sublist (tokens.map Token.key).reverse).length_le
  rw [List.length_reverse, List.length_map] at hle
  rwa [size_ofList]

/-- No token of the list is lost if and only if the keys are distinct. -/
lemma size_ofList_eq_length {tokens : List Token} :
    (ofList tokens).size = tokens.length ↔ (tokens.map Token.key).Nodup := by
  have hlength : tokens.length = (tokens.map Token.key).reverse.length := by
    rw [List.length_reverse, List.length_map]
  rw [size_ofList, hlength, ← List.nodup_reverse, ← List.dedup_eq_self]
  constructor
  · exact (List.dedup_sublist _).eq_of_length
  · intro hself
    rw [hself]

end Registry

namespace Inheritance

/-! ## Groups that extend groups -/

/-- What the markers of a batch say that a group extends, both as texts: the last marker of the
release for the group counts. -/
def declaredParent? (tokens : List Token) (group : String) : Option String :=
  (tokens.reverse.find? fun t =>
      t.isExtendsMarker ∧ t.version = .v2025_10 ∧ groupName t.path.dropLast = group).map
    fun t => (Reference.pointerPath? t.value).getD t.value

/-- The first group is declared to extend the second. -/
def Declares (tokens : List Token) (child parent : String) : Prop :=
  declaredParent? tokens child = some parent

/-- What a group extends is what its last marker declares. -/
lemma find?_extensions_declared (tokens : List Token) (group : String) :
    (extensions tokens).find? (fun e => e.child = group) =
      (declaredParent? tokens group).map fun parent => ⟨group, parent⟩ := by
  induction tokens using List.reverseRecOn with
  | nil => rfl
  | append_singleton tokens t ih =>
    have hstep : declaredParent? (tokens ++ [t]) group =
        if t.isExtendsMarker ∧ t.version = .v2025_10 ∧ groupName t.path.dropLast = group then
          some ((Reference.pointerPath? t.value).getD t.value)
        else declaredParent? tokens group := by
      unfold declaredParent?
      rw [List.reverse_append, List.reverse_singleton, List.singleton_append, List.find?_cons]
      split_ifs with h
      · simp [h]
      · simp [h]
    rw [extensions_concat, hstep]
    unfold ofMarker?
    by_cases hmarker : t.isExtendsMarker = true ∧ t.version = .v2025_10
    · by_cases hgroup : groupName t.path.dropLast = group
      · simp [hmarker, hgroup, find?_declare]
      · simp [hmarker, hgroup, find?_declare, ih]
    · have hnot : ¬ (t.isExtendsMarker = true ∧ t.version = .v2025_10 ∧
          groupName t.path.dropLast = group) := fun h => hmarker ⟨h.1, h.2.1⟩
      rw [if_neg hnot]
      simp [hmarker, ih]

/-- The extension graph records what the markers declare. -/
lemma dependsOn_iff_declares {tokens : List Token} {a b : String} :
    (graph (extensions tokens)).DependsOn a b ↔ Declares tokens a b := by
  have hfind := find?_extensions_declared tokens a
  rw [graph_eq_build, Graph.dependsOn_build, List.mem_map, Declares]
  constructor
  · rintro ⟨e, he, heq⟩
    cases heq
    rw [find?_of_nodup_map (nodup_children tokens) he, eq_comm, Option.map_eq_some_iff] at hfind
    obtain ⟨parent, hparent, heq⟩ := hfind
    rw [hparent, ← congrArg Extension.parent heq]
  · intro hdeclared
    rw [hdeclared, Option.map_some] at hfind
    exact ⟨_, List.mem_of_find?_eq_some hfind, rfl⟩

/-- All that there is after groups have inherited comes from a token of the batch, which has moved
or not. -/
lemma exists_source_of_mem_inheritAll {all : List Extension} {groups : List String}
    {tokens : List Token} {t : Token} (ht : t ∈ inheritAll all groups tokens) :
    ∃ s ∈ tokens, t = { s with name := t.name, path := t.path } := by
  induction groups generalizing tokens with
  | nil => exact ⟨t, ht, rfl⟩
  | cons group groups ih =>
    unfold inheritAll at ht
    split at ht
    · exact ih ht
    · next e _ =>
      obtain ⟨s, hs, heq⟩ := ih ht
      rcases List.mem_append.mp hs with hs | hs
      · exact ⟨s, hs, heq⟩
      · obtain ⟨source, hsource, rfl⟩ := List.mem_map.mp hs
        have hmem : source ∈ tokens := (List.mem_filter.mp (List.mem_filter.mp hsource).1).1
        exact ⟨source, hmem, heq⟩

/-- Groups are expanded unless they are declared to extend each other in a circle. -/
lemma expand_cases (tokens : List Token) :
    (Cyclic (Declares tokens) ∧ ∃ cycle, expand tokens = .error (.circular cycle)) ∨
    (¬ Cyclic (Declares tokens) ∧ ∃ out, expand tokens = .ok out ∧ tokens <+: out ∧
      ∀ t ∈ out, ∃ s ∈ tokens, t = { s with name := t.name, path := t.path }) := by
  have hdeclares : (graph (extensions tokens)).DependsOn = Declares tokens := by
    funext a b
    exact propext dependsOn_iff_declares
  unfold expand
  by_cases hcyclic : Cyclic (Declares tokens)
  · rw [← hdeclares] at hcyclic
    obtain ⟨cycle, hcycle, -⟩ := Graph.order_of_cyclic hcyclic
    exact .inl ⟨hdeclares ▸ hcyclic, cycle, by simp only [hcycle]⟩
  · rw [← hdeclares] at hcyclic
    have horder := Graph.order_of_not_cyclic hcyclic
    exact .inr ⟨hdeclares ▸ hcyclic, _, by simp only [horder]; rfl, prefix_inheritAll _ _ _,
      fun t ht => exists_source_of_mem_inheritAll ht⟩

end Inheritance

namespace Workspace

open Registry (last?)

/-! ## Resolving a batch -/

/-- Nothing but the resolved value of a token changes. -/
def ResolvesTo (t u : Token) : Prop :=
  u = t ∨ ∃ v, u = t.markResolved v

lemma ResolvesTo.key_eq {t u : Token} (h : ResolvesTo t u) : u.key = t.key := by
  rcases h with rfl | ⟨v, rfl⟩
  · rfl
  · rfl

lemma ResolvesTo.name_path_eq {t u : Token} (h : ResolvesTo t u) :
    u.name = t.name ∧ u.path = t.path := by
  rcases h with rfl | ⟨v, rfl⟩
  · exact ⟨rfl, rfl⟩
  · exact ⟨rfl, rfl⟩

/-- A resolved token comes from a token. -/
lemma exists_resolvesTo {tokens tokens' : List Token} (h : List.Forall₂ ResolvesTo tokens tokens')
    {u : Token} (hu : u ∈ tokens') : ∃ t ∈ tokens, ResolvesTo t u := by
  obtain ⟨i, hi, rfl⟩ := List.getElem_of_mem hu
  obtain ⟨hlength, hget⟩ := List.forall₂_iff_get.mp h
  exact ⟨_, List.get_mem tokens ⟨i, hlength ▸ hi⟩, hget i (hlength ▸ hi) hi⟩

/-- Resolving a list keeps its keys. -/
lemma map_key_of_forall₂ {tokens tokens' : List Token}
    (h : List.Forall₂ ResolvesTo tokens tokens') :
    tokens'.map Token.key = tokens.map Token.key := by
  induction h with
  | nil => rfl
  | cons hresolves _ ih => rw [List.map_cons, List.map_cons, hresolves.key_eq, ih]

/-- The last token with a key resolves to the last one with it. -/
lemma exists_last?_of_forall₂ {tokens tokens' : List Token}
    (h : List.Forall₂ ResolvesTo tokens tokens') {k : TokenKey} {t : Token}
    (ht : last? tokens k = some t) : ∃ u, last? tokens' k = some u ∧ ResolvesTo t u := by
  unfold last? at ht ⊢
  have hreverse := List.rel_reverse h
  generalize tokens.reverse = reversed, tokens'.reverse = reversed' at hreverse ht ⊢
  induction hreverse with
  | nil => cases ht
  | @cons s u _ _ hresolves _ ih =>
    by_cases hk : s.key = k
    · have hk' : u.key = k := hresolves.key_eq.trans hk
      rw [List.find?_cons_of_pos (by simpa using hk)] at ht
      rw [List.find?_cons_of_pos (by simpa using hk')]
      exact ⟨u, rfl, Option.some.inj ht ▸ hresolves⟩
    · have hk' : ¬ u.key = k := fun hu => hk (hresolves.key_eq.symm.trans hu)
      rw [List.find?_cons_of_neg (by simpa using hk)] at ht
      rw [List.find?_cons_of_neg (by simpa using hk')]
      exact ih ht

/-- A complete resolution resolves each token. -/
lemma forall₂_of_complete {tokens tokens' : List Token} {version : Version}
    (h : Resolution.Complete tokens version tokens') : List.Forall₂ ResolvesTo tokens tokens' := by
  rw [List.forall₂_iff_get]
  refine ⟨h.length_eq.symm, fun i hi hi' => ?_⟩
  obtain ⟨u, hu, hsettled⟩ := h.settled i _ (List.getElem?_eq_getElem hi)
  obtain ⟨_, rfl⟩ := List.getElem?_eq_some_iff.mp hu
  rcases hsettled with ⟨v, -, heq⟩ | ⟨-, heq⟩
  · exact .inr ⟨v, heq⟩
  · exact .inl heq

/-- Groups of the batch extend each other in a circle, or else its tokens and what they inherit
refer to each other in a circle. -/
def Circular (batch : List Token) : Prop :=
  Cyclic (Inheritance.Declares batch) ∨
    ∃ expanded, Inheritance.expand batch = .ok expanded ∧
      Cyclic (RefersTo (withoutMarkers expanded) (batchVersion (withoutMarkers expanded)))

/-- A batch is resolved unless it is circular. What comes out are the tokens of the batch, and then
what groups inherit: tokens of the batch under other paths; all without markers. -/
lemma resolveBatch_cases (batch : List Token) :
    (Circular batch ∧ ∃ cycle, resolveBatch batch = .error (.circular cycle)) ∨
    (¬ Circular batch ∧ ∃ rest tokens failures,
      Inheritance.expand batch = .ok (batch ++ rest) ∧
      resolveBatch batch = .ok (tokens, failures) ∧
      List.Forall₂ ResolvesTo (withoutMarkers (batch ++ rest)) tokens ∧
      ∀ t ∈ rest, ∃ s ∈ batch, t = { s with name := t.name, path := t.path }) := by
  unfold resolveBatch Circular
  rcases Inheritance.expand_cases batch with ⟨hcyclic, cycle, herror⟩ |
    ⟨hcyclic, expanded, hok, ⟨rest, rfl⟩, hsource⟩
  · exact .inl ⟨.inl hcyclic, cycle, by rw [herror]⟩
  · simp only [hok, hcyclic, false_or]
    set tokens := withoutMarkers (batch ++ rest)
    rcases Resolution.lenient_cases tokens (batchVersion tokens) with ⟨hrefers, cycle, hcycle⟩ |
      ⟨hrefers, resolved, failures, hrun, -, hcomplete⟩
    · exact .inl ⟨⟨_, rfl, hrefers⟩, cycle, by rw [hcycle]⟩
    · rw [hrun]
      refine .inr ⟨?_, rest, resolved, failures, rfl, rfl, forall₂_of_complete hcomplete, ?_⟩
      · rintro ⟨expanded', heq, h⟩
        cases heq
        exact hrefers h
      · exact fun t ht => hsource t (List.mem_append_right _ ht)

/-- A batch is refused if and only if it is circular. -/
lemma resolveBatch_eq_error {batch : List Token} :
    (∃ e, resolveBatch batch = .error e) ↔ Circular batch := by
  rcases resolveBatch_cases batch with ⟨hcircular, cycle, herror⟩ |
    ⟨hcircular, -, tokens, failures, -, hok, -⟩
  · simp [hcircular, herror]
  · simp [hcircular, hok]

/-! ## Values that are carried over -/

/-- Two tokens of the same file with the same name and the same text. -/
structure Matches (s t : Token) : Prop where
  filePath_eq : s.filePath = t.filePath
  name_eq : s.name = t.name
  value_eq : s.value = t.value

lemma Matches.trans {s t u : Token} (hst : Matches s t) (htu : Matches t u) : Matches s u :=
  ⟨hst.filePath_eq.trans htu.filePath_eq, hst.name_eq.trans htu.name_eq,
    hst.value_eq.trans htu.value_eq⟩

/-- The registry has a resolved token that matches `t`, and `v` is its value. -/
def Held (r : Registry) (t : Token) (v : Json.Value) : Prop :=
  ∃ s ∈ r.toList, Matches s t ∧ s.isResolved = true ∧ s.resolvedValue = some v

/-- The token under the key of `t` decides what is held for it. -/
lemma held_iff {r : Registry} (h : r.Valid) {t : Token} {v : Json.Value} :
    Held r t v ↔ ∃ s, r.qualified? t.name t.filePath = some s ∧ s.value = t.value ∧
      s.isResolved = true ∧ s.resolvedValue = some v := by
  rw [h.qualified?_eq]
  constructor
  · rintro ⟨s, hs, hmatches, hres, hval⟩
    have hfind := find?_of_nodup_map h.nodup hs
    have hkey : s.key = ⟨t.filePath, t.name⟩ :=
      Token.key_eq_iff.mpr ⟨hmatches.filePath_eq, hmatches.name_eq⟩
    simp only [hkey, Token.key_eq_iff] at hfind
    exact ⟨s, hfind, hmatches.value_eq, hres, hval⟩
  · rintro ⟨s, hfind, hvalue, hres, hval⟩
    have hkey := List.find?_some hfind
    rw [decide_eq_true_eq] at hkey
    exact ⟨s, List.mem_of_find?_eq_some hfind, ⟨hkey.1, hkey.2, hvalue⟩, hres, hval⟩

lemma Held.unique {r : Registry} (h : r.Valid) {t : Token} {v v' : Json.Value} (hv : Held r t v)
    (hv' : Held r t v') : v = v' := by
  obtain ⟨s, hs, -, -, hval⟩ := (held_iff h).mp hv
  obtain ⟨s', hs', -, -, hval'⟩ := (held_iff h).mp hv'
  rw [hs] at hs'
  cases hs'
  rw [hval] at hval'
  exact Option.some.inj hval'

/-- A token takes over the value that is held for it, and else stays as it is. -/
lemma carryOver_cases {r : Registry} (h : r.Valid) (t : Token) :
    (∃ v, Held r t v ∧ carryOver r t = t.markResolved v) ∨
      ((∀ v, ¬ Held r t v) ∧ carryOver r t = t) := by
  unfold carryOver
  cases hs : r.qualified? t.name t.filePath with
  | none =>
    refine .inr ⟨fun v hv => ?_, rfl⟩
    obtain ⟨s, hs', -⟩ := (held_iff h).mp hv
    rw [hs] at hs'
    cases hs'
  | some s =>
    have hheld : ∀ v, Held r t v ↔
        s.value = t.value ∧ s.isResolved = true ∧ s.resolvedValue = some v := by
      intro v
      rw [held_iff h, hs]
      simp
    simp only [hheld]
    cases hres : s.isResolved with
    | false => exact .inr ⟨by simp, rfl⟩
    | true =>
      cases hval : s.resolvedValue with
      | none => exact .inr ⟨by simp, rfl⟩
      | some v =>
        by_cases hvalue : s.value = t.value
        · exact .inl ⟨v, ⟨hvalue, rfl, rfl⟩, by simp only [if_pos hvalue]⟩
        · exact .inr ⟨by simp [hvalue], by simp only [if_neg hvalue]⟩

/-- In a registry in which resolved tokens have values, a token that matches and is resolved decides
what is taken over. -/
lemma eq_carryOver_iff {r : Registry} (h : r.Valid) (hr : Resolution.Consistent r.toList)
    {t u : Token} :
    u = carryOver r t ↔
      (∃ s ∈ r.toList, Matches s t ∧ s.isResolved = true ∧
        u = { t with resolvedValue := s.resolvedValue, isResolved := true }) ∨
      ((¬ ∃ s ∈ r.toList, Matches s t ∧ s.isResolved = true) ∧ u = t) := by
  have hheld : ∀ s ∈ r.toList, Matches s t → s.isResolved = true →
      ∃ v, s.resolvedValue = some v ∧ Held r t v := by
    intro s hs hmatches hres
    obtain ⟨v, hv⟩ := Option.isSome_iff_exists.mp (hr s hs hres)
    exact ⟨v, hv, s, hs, hmatches, hres, hv⟩
  rcases carryOver_cases h t with ⟨v, hv, heq⟩ | ⟨hnone, heq⟩
  · obtain ⟨s, hs, hmatches, hres, hval⟩ := id hv
    rw [heq]
    constructor
    · rintro rfl
      exact .inl ⟨s, hs, hmatches, hres, by rw [Token.markResolved, hval]⟩
    · rintro (⟨s', hs', hmatches', hres', rfl⟩ | ⟨hno, -⟩)
      · obtain ⟨v', hval', hv'⟩ := hheld s' hs' hmatches' hres'
        rw [hval', Token.markResolved, hv'.unique h hv]
      · exact absurd ⟨s, hs, hmatches, hres⟩ hno
  · have hno : ¬ ∃ s ∈ r.toList, Matches s t ∧ s.isResolved = true := by
      rintro ⟨s, hs, hmatches, hres⟩
      obtain ⟨v, -, hv⟩ := hheld s hs hmatches hres
      exact hnone v hv
    rw [heq]
    constructor
    · exact fun hu => .inr ⟨hno, hu⟩
    · rintro (⟨s, hs, hmatches, hres, -⟩ | ⟨-, hu⟩)
      · exact absurd ⟨s, hs, hmatches, hres⟩ hno
      · exact hu

/-- A value that is carried over resolves the token. -/
lemma resolvesTo_carryOver {r : Registry} (h : r.Valid) (t : Token) :
    ResolvesTo t (carryOver r t) := by
  rcases carryOver_cases h t with ⟨v, -, heq⟩ | ⟨-, heq⟩
  · exact .inr ⟨v, heq⟩
  · exact .inl heq

lemma key_carryOver {r : Registry} (h : r.Valid) (t : Token) : (carryOver r t).key = t.key :=
  (resolvesTo_carryOver h t).key_eq

/-- A token takes over from what was published last what it took over when that was published. -/
lemma carryOver_republished {r : Registry} (h : r.Valid) {tokens : List Token} {t : Token}
    (ht : last? tokens t.key = some t) :
    carryOver (.ofList (tokens.map (carryOver r))) t = carryOver r t := by
  set r' := Registry.ofList (tokens.map (carryOver r)) with hr'
  have hvalid : r'.Valid := Registry.valid_ofList _
  have hfound : r'.qualified? t.name t.filePath = some (carryOver r t) := by
    have hkey : (⟨t.filePath, t.name⟩ : TokenKey) = t.key := rfl
    rw [hr', Registry.qualified?_ofList, hkey, Registry.last?_map (key_carryOver h), ht]
    rfl
  rcases carryOver_cases h t with ⟨v, -, heq⟩ | ⟨-, heq⟩
  · -- The value that was taken over is held now.
    rw [heq] at hfound ⊢
    have hheld : Held r' t v := (held_iff hvalid).mpr ⟨_, hfound, rfl, rfl, rfl⟩
    rcases carryOver_cases hvalid t with ⟨v', hheld', heq'⟩ | ⟨hnone, -⟩
    · rw [heq', hheld'.unique hvalid hheld]
    · exact absurd hheld (hnone v)
  · rw [heq] at hfound ⊢
    rcases carryOver_cases hvalid t with ⟨v', hheld', heq'⟩ | ⟨-, heq'⟩
    · -- What is held is the token itself, resolved as it came.
      obtain ⟨s, hs, -, hres, hval⟩ := (held_iff hvalid).mp hheld'
      rw [hfound] at hs
      cases hs
      rw [heq', Token.markResolved, ← hres, ← hval]
    · exact heq'

/-! ## What a pass leaves -/

/-- What a pass over a batch publishes when `r` was published before. -/
def published (r : Registry) (batch : List Token) : Registry :=
  match resolveBatch batch with
  | .ok (tokens, _) => .ofList tokens
  | .error _ => .ofList ((withoutMarkers batch).map (carryOver r))

/-- The issues of a pass over a batch, apart from those of loading. -/
def batchIssues (batch : List Token) : List Issue :=
  match resolveBatch batch with
  | .ok (_, failures) => failures.map failureIssue
  | .error e => [⟨none, none, e.message⟩]

/-- What a pass answers if all could be loaded. -/
def batchResult (batch : List Token) : Except Error Nat :=
  (resolveBatch batch).map fun resolved => resolved.1.length

/-- A pass changes what is published and the issues, and nothing else. -/
lemma resolveAll_eq (w : Workspace) :
    w.resolveAll =
      ({ w with
          registry := published w.registry w.batch
          issues := w.loadIssues ++ batchIssues w.batch },
        batchResult w.batch) := by
  unfold resolveAll published batchIssues batchResult
  cases resolveBatch w.batch with
  | ok resolved => rfl
  | error e => rfl

/-- A circular batch is published as it was written, with the values that were held before. -/
lemma published_of_circular {batch : List Token} (h : Circular batch) (r : Registry) :
    published r batch = .ofList ((withoutMarkers batch).map (carryOver r)) := by
  obtain ⟨e, herror⟩ := resolveBatch_eq_error.mpr h
  rw [published, herror]

/-- Every other batch is published as it is expanded and resolved. -/
lemma exists_published_of_not_circular {batch : List Token} (h : ¬ Circular batch)
    (r : Registry) :
    ∃ rest tokens failures, Inheritance.expand batch = .ok (batch ++ rest) ∧
      resolveBatch batch = .ok (tokens, failures) ∧
      published r batch = .ofList tokens ∧
      List.Forall₂ ResolvesTo (withoutMarkers (batch ++ rest)) tokens ∧
      ∀ t ∈ rest, ∃ s ∈ batch, t = { s with name := t.name, path := t.path } := by
  rcases resolveBatch_cases batch with ⟨hcircular, -⟩ |
    ⟨-, rest, tokens, failures, hexpand, hok, hresolves, hsource⟩
  · exact absurd hcircular h
  · exact ⟨rest, tokens, failures, hexpand, hok, by rw [published, hok], hresolves, hsource⟩

/-- What is published of a circular batch: the last token with each key, with the value held. -/
lemma mem_published_of_circular {batch : List Token} (h : Circular batch) {r : Registry}
    (hr : r.Valid) {u : Token} :
    u ∈ (published r batch).toList ↔
      ∃ t, last? (withoutMarkers batch) t.key = some t ∧ u = carryOver r t := by
  rw [published_of_circular h, Registry.mem_toList_ofList,
    Registry.last?_map (key_carryOver hr), Option.map_eq_some_iff]
  constructor
  · rintro ⟨t, ht, rfl⟩
    rw [key_carryOver hr] at ht
    exact ⟨t, ht, rfl⟩
  · rintro ⟨t, ht, rfl⟩
    rw [key_carryOver hr]
    exact ⟨t, ht, rfl⟩

lemma valid_published (r : Registry) (batch : List Token) : (published r batch).Valid := by
  unfold published
  cases resolveBatch batch with
  | ok resolved => exact Registry.valid_ofList _
  | error e => exact Registry.valid_ofList _

/-- What is published comes from the batch: a token of it, under its own path or one at which a
group inherits it, no marker, and with nothing new but a resolved value. -/
lemma exists_source_of_mem_published {r : Registry} (hr : r.Valid) {batch : List Token} {u : Token}
    (hu : u ∈ (published r batch).toList) :
    u.isExtendsMarker = false ∧
      ∃ s ∈ batch, ResolvesTo { s with name := u.name, path := u.path } u := by
  -- It is enough to know the token that it is resolved from.
  have hfrom : ∃ t, t.isExtendsMarker = false ∧ ResolvesTo t u ∧
      ∃ s ∈ batch, t = { s with name := t.name, path := t.path } := by
    by_cases hcircular : Circular batch
    · obtain ⟨t, ht, rfl⟩ := (mem_published_of_circular hcircular hr).mp hu
      obtain ⟨hmem, hmarker⟩ := List.mem_filter.mp (Registry.of_last?_eq_some ht).1
      exact ⟨t, by simpa using hmarker, resolvesTo_carryOver hr t, t, hmem, rfl⟩
    · obtain ⟨rest, tokens, failures, -, -, hpublished, hresolves, hsource⟩ :=
        exists_published_of_not_circular hcircular r
      rw [hpublished, Registry.mem_toList_ofList] at hu
      obtain ⟨t, ht, htu⟩ := exists_resolvesTo hresolves (Registry.of_last?_eq_some hu).1
      obtain ⟨hmem, hmarker⟩ := List.mem_filter.mp ht
      refine ⟨t, by simpa using hmarker, htu, ?_⟩
      rcases List.mem_append.mp hmem with hbatch | hrest
      · exact ⟨t, hbatch, rfl⟩
      · exact hsource t hrest
  obtain ⟨t, hmarker, htu, s, hs, heq⟩ := hfrom
  obtain ⟨hname, hpath⟩ := htu.name_path_eq
  refine ⟨?_, s, hs, ?_⟩
  · rw [Token.isExtendsMarker, hpath]
    exact hmarker
  · rw [hname, hpath, ← heq]
    exact htu

/-- For each token of a batch but the markers, one with its key is published. -/
lemma exists_mem_published {r : Registry} (hr : r.Valid) {batch : List Token} {t : Token}
    (ht : t ∈ batch) (hmarker : t.isExtendsMarker = false) :
    ∃ u ∈ (published r batch).toList, u.key = t.key := by
  by_cases hcircular : Circular batch
  · have hmem : t ∈ withoutMarkers batch := List.mem_filter.mpr ⟨ht, by simp [hmarker]⟩
    obtain ⟨s, hs⟩ := Registry.exists_last?_of_mem hmem
    have hkey := (Registry.of_last?_eq_some hs).2
    refine ⟨carryOver r s, (mem_published_of_circular hcircular hr).mpr ⟨s, ?_, rfl⟩, ?_⟩
    · rw [hkey]
      exact hs
    · rw [key_carryOver hr, hkey]
  · obtain ⟨rest, tokens, failures, -, -, hpublished, hresolves, -⟩ :=
      exists_published_of_not_circular hcircular r
    have hmem : t ∈ withoutMarkers (batch ++ rest) :=
      List.mem_filter.mpr ⟨List.mem_append_left _ ht, by simp [hmarker]⟩
    obtain ⟨s, hs⟩ := Registry.exists_last?_of_mem hmem
    obtain ⟨u, hu, -⟩ := exists_last?_of_forall₂ hresolves hs
    have hkey := (Registry.of_last?_eq_some hu).2
    rw [hpublished]
    exact ⟨u, Registry.mem_toList_ofList.mpr (hkey ▸ hu), hkey⟩

/-- Of tokens that are not resolved, none is published as resolved without its value. -/
lemma consistent_published {r : Registry} (hr : r.Valid) {batch : List Token}
    (hbatch : ∀ t ∈ batch, t.isResolved = false) :
    Resolution.Consistent (published r batch).toList := by
  intro u hu hres
  obtain ⟨-, s, hs, heq | ⟨v, heq⟩⟩ := exists_source_of_mem_published hr hu
  · rw [heq] at hres
    exact absurd hres (by simp [hbatch s hs])
  · rw [heq]
    rfl

/-- To publish the same batch once more changes nothing. -/
lemma toList_republished {r : Registry} (h : r.Valid) (batch : List Token) :
    (published (published r batch) batch).toList = (published r batch).toList := by
  by_cases hcircular : Circular batch
  · simp only [published_of_circular hcircular]
    set tokens := withoutMarkers batch
    have hkeys : ∀ {r' : Registry}, r'.Valid →
        (tokens.map (carryOver r')).map Token.key = tokens.map Token.key := by
      intro r' hr'
      rw [List.map_map]
      exact List.map_congr_left fun t _ => key_carryOver hr' t
    have hvalid : (Registry.ofList (tokens.map (carryOver r))).Valid := Registry.valid_ofList _
    refine Registry.toList_ofList_congr ((hkeys hvalid).trans (hkeys h).symm) fun k => ?_
    -- Only the last token of a key counts, and it takes over the same value again.
    rw [Registry.last?_map (key_carryOver hvalid), Registry.last?_map (key_carryOver h)]
    cases hlast : last? tokens k with
    | none => rfl
    | some t =>
      obtain ⟨-, rfl⟩ := Registry.of_last?_eq_some hlast
      rw [Option.map_some, Option.map_some, carryOver_republished h hlast]
  · obtain ⟨-, tokens, failures, -, hok, -⟩ := exists_published_of_not_circular hcircular r
    simp only [published, hok]

end Workspace

end DesignTokens
