import DesignTokens.Proofs.Declarations
import Mathlib.Data.List.Forall2

/-!
# The walk through a document

Reading a token file goes from group to group, and hands down what a group passes on to its
children: its path, a type, and the spot from which keys are sought. `Reached` says which groups
are met and with what, one constructor for the document and one for a child. `Gives` says how a
declaration comes to its token. The tokens of a file are given by the declarations of its document,
one by one (`gives_groupTokens`), so that a fact about tokens is a fact about the groups that are
reached.
-/

namespace DesignTokens.TokenFile

open Json (Value Fields)

/-- The groups that are met, each with its path, the type that it passes on, the spot from which
its keys are sought, and its fields. -/
inductive Reached (c : Context) (text : List Char) (doc : Fields) :
    List String → Option String → Spot → Fields → Prop
  | document : Reached c text doc [] none (.start text) doc
  | child {path : List String} {type : Option String} {spot : Spot} {fields inner : Fields}
      {key : String} (above : Reached c text doc path type spot fields)
      (mem : (key, .object inner) ∈ fields) :
      Reached c text doc (path ++ [key]) (((Value.object inner).stringAt? "$type").or type)
        (keySpot c.format key spot) inner

/-- How a declaration comes to its token: by a child of a group, or by what a group below the
document says about itself. -/
inductive Gives (c : Context) (text : List Char) (doc : Fields) : Declaration → Token → Prop
  | node {path : List String} {type : Option String} {spot : Spot} {fields inner : Fields}
      {key : String} (above : Reached c text doc path type spot fields)
      (mem : (key, .object inner) ∈ fields) (valued : hasValue (.object inner) = true) :
      Gives c text doc ⟨path ++ [key], .node⟩
        (nodeToken c (path ++ [key]) (((Value.object inner).stringAt? "$type").or type)
          (keySpot c.format key spot) (.object inner))
  | extension {path : List String} {type : Option String} {spot : Spot} {fields : Fields}
      {target : String} (reached : Reached c text doc path type spot fields) (below : path ≠ [])
      (stated : (Value.object fields).stringAt? extendsKey = some target) :
      Gives c text doc ⟨path, .extension⟩
        { bareToken c (path ++ [extendsKey]) spot with value := target }
  | root {path : List String} {type : Option String} {spot : Spot} {fields inner : Fields}
      (reached : Reached c text doc path type spot fields)
      (stated : (Value.object fields).get? rootKey = some (.object inner))
      (valued : hasValue (.object inner) = true) :
      Gives c text doc ⟨path, .root⟩
        (nodeToken c path type (keySpot c.format rootKey spot) (.object inner))

section Walk

variable {c : Context} {text : List Char} {doc : Fields} {path : List String}
  {type : Option String} {spot : Spot} {fields : Fields}

/-! ## Where groups are -/

/-- A group is reached by its path, and has its keys in order. -/
lemma Reached.at?_eq (hdoc : (Value.object doc).Sorted)
    (h : Reached c text doc path type spot fields) :
    (Value.object doc).at? path = some (.object fields) ∧ (Value.object fields).Sorted := by
  induction h with
  | document => exact ⟨rfl, hdoc⟩
  | child above mem ih =>
    obtain ⟨hat, hsorted⟩ := ih
    cases hsorted with
    | object keys values =>
      refine ⟨?_, values _ mem⟩
      rw [Value.at?_append, hat, Option.bind_some, Value.at?_singleton]
      exact keys.get?_of_mem mem

/-! ## Tokens are given by declarations -/

/-- The marker of a group is given by the declaration that it extends another. -/
lemma gives_extendsMarker (hreached : Reached c text doc path type spot fields)
    (hpath : path ≠ []) :
    List.Forall₂ (Gives c text doc)
      (List.map (⟨path, ·⟩)
        (if ((Value.object fields).stringAt? "$extends").isSome then [.extension] else []))
      (extendsMarker c path spot (.object fields)) := by
  rw [extendsMarker, extendsKey]
  cases hstated : (Value.object fields).stringAt? "$extends" with
  | none => exact .nil
  | some target => exact .cons (.extension hreached hpath hstated) .nil

/-- The root token of a group is given by its declaration. -/
lemma gives_rootToken (hreached : Reached c text doc path type spot fields) :
    List.Forall₂ (Gives c text doc)
      (List.map (⟨path, ·⟩)
        (if (((Value.object fields).get? "$root").bind (Value.get? "$value")).isSome then [.root]
          else []))
      (rootToken c path type spot (.object fields)) := by
  rw [rootToken]
  cases hroot : (Value.object fields).get? rootKey with
  | none =>
    rw [rootKey] at hroot
    rw [hroot]
    exact .nil
  | some root =>
    have hstated := hroot
    rw [rootKey] at hroot
    rw [hroot, Option.bind_some]
    cases root with
    | object inner =>
      by_cases hvalue : hasValue (.object inner) = true
      · have hvalued := hvalue
        rw [hasValue] at hvalue
        simp only [hasValue, hvalue, if_true]
        exact .cons (.root hreached hstated hvalued) .nil
      · rw [hasValue] at hvalue
        simp only [hasValue, hvalue]
        exact .nil
    | _ => exact .nil

/-- What a group says about itself. -/
lemma gives_groupHead (hreached : Reached c text doc path type spot fields) (hpath : path ≠ []) :
    List.Forall₂ (Gives c text doc) ((headKinds c (.object fields)).map (⟨path, ·⟩))
      (groupHead c path type spot (.object fields)) := by
  rw [headKinds, groupHead]
  by_cases hversion : c.version = .v2025_10
  · have hboth : c.version = .v2025_10 ∧ path ≠ [] := ⟨hversion, hpath⟩
    rw [if_pos hboth, if_pos hversion, List.map_append]
    exact List.rel_append (gives_extendsMarker hreached hpath) (gives_rootToken hreached)
  · have hnot : ¬ (c.version = .v2025_10 ∧ path ≠ []) := fun h => hversion h.1
    rw [if_neg hnot, if_neg hversion]
    exact .nil

/-- The tokens of a child, given those of its fields. -/
lemma gives_child (hreached : Reached c text doc path type spot fields) {key : String}
    {inner : Fields} (hmem : (key, .object inner) ∈ fields)
    (hinner : ∀ {type' place}, Reached c text doc (path ++ [key]) type' place inner →
      List.Forall₂ (Gives c text doc)
        ((fieldDeclarations c inner).map (Declaration.below (path ++ [key])))
        (childTokens c (path ++ [key]) type' place inner)) :
    List.Forall₂ (Gives c text doc)
      ((nodeDeclarations c key (.object inner)).map (Declaration.below path))
      (childTokens c path type spot [(key, .object inner)]) := by
  have hchild := hreached.child hmem
  have hown : List.Forall₂ (Gives c text doc)
      (List.map (Declaration.below path)
        (if hasValue (.object inner) then [⟨[key], .node⟩] else []))
      (if hasValue (.object inner) then
        [nodeToken c (path ++ [key]) (((Value.object inner).stringAt? "$type").or type)
          (keySpot c.format key spot) (.object inner)] else []) := by
    split_ifs with hvalue
    · exact .cons (.node hreached hmem hvalue) .nil
    · exact .nil
  rw [nodeDeclarations, childTokens, childTokens, List.append_nil]
  by_cases hdollar : Text.startsWith "$" key = true
  · rw [if_pos hdollar, if_pos hdollar]
    exact .nil
  · rw [if_neg hdollar, if_neg hdollar, List.map_append]
    by_cases hopens : opens c key (.object inner) = true
    · have hbelow : Declaration.below path ∘ Declaration.below [key] =
          Declaration.below (path ++ [key]) := by
        funext d
        simp [Declaration.below]
      rw [if_pos hopens]
      simp only [show (!hasValue (.object inner) || c.options.groupMarkers.contains key) = true
        from hopens, if_true]
      rw [groupTokens, List.map_append, List.map_map, List.map_map, hbelow]
      exact List.rel_append hown
        (List.rel_append (gives_groupHead hchild (by simp)) (hinner hchild))
    · rw [if_neg hopens, List.map_nil, List.append_nil]
      simp only [show ¬ (!hasValue (.object inner) || c.options.groupMarkers.contains key) = true
        from hopens]
      exact hown

/-- The tokens of a group are those of its fields, one after the other. -/
lemma childTokens_cons (c : Context) (path : List String) (type : Option String) (spot : Spot)
    (e : String × Value) (rest : Fields) :
    childTokens c path type spot (e :: rest) =
      childTokens c path type spot [e] ++ childTokens c path type spot rest := by
  obtain ⟨key, node⟩ := e
  cases node with
  | object fields => rw [childTokens, childTokens, childTokens, List.append_nil]
  | _ =>
    rw [childTokens, childTokens, childTokens, List.nil_append]
    all_goals simp

/-- The tokens of fields, given those of each. -/
lemma gives_each
    (h : ∀ e ∈ fields, List.Forall₂ (Gives c text doc)
      ((nodeDeclarations c e.1 e.2).map (Declaration.below path))
      (childTokens c path type spot [e])) :
    List.Forall₂ (Gives c text doc) ((fieldDeclarations c fields).map (Declaration.below path))
      (childTokens c path type spot fields) := by
  induction fields with
  | nil =>
    rw [fieldDeclarations, childTokens]
    exact .nil
  | cons e rest ih =>
    obtain ⟨hfirst, hrest⟩ := List.forall_mem_cons.mp h
    rw [fieldDeclarations, childTokens_cons, List.map_append]
    exact List.rel_append hfirst (ih hrest)

/-- The declarations in a group give its tokens, one each and in their order. -/
lemma gives_childTokens {v : Value} (hv : v.Sorted) (hfields : v = .object fields)
    (hreached : Reached c text doc path type spot fields) :
    List.Forall₂ (Gives c text doc) ((fieldDeclarations c fields).map (Declaration.below path))
      (childTokens c path type spot fields) := by
  induction hv generalizing fields path type spot with
  | @object own keys _ ih =>
    cases hfields
    refine gives_each ?_
    rintro ⟨key, node⟩ hmem
    cases node with
    | object inner => exact gives_child hreached hmem fun hinner => ih _ hmem rfl hinner
    | _ =>
      -- What is no object declares nothing.
      rw [nodeDeclarations, childTokens, childTokens]
      · exact .nil
      all_goals simp
  | _ => cases hfields

end Walk

/-- The document itself is no group: only its fields count. -/
lemma groupTokens_document (c : Context) (spot : Spot) (fields : Fields) :
    groupTokens c [] none spot (.object fields) = childTokens c [] none spot fields := by
  have hhead : groupHead c [] none spot (.object fields) = [] := if_neg fun h => h.2 rfl
  rw [groupTokens, hhead, List.nil_append]

lemma map_below_nil (declarations : List Declaration) :
    declarations.map (Declaration.below []) = declarations := by
  have hbelow : Declaration.below [] = id := rfl
  rw [hbelow, List.map_id]

/-- The tokens of a document are given by its declarations, one by one. -/
lemma gives_groupTokens (c : Context) (text : List Char) {fields : Fields}
    (hsorted : (Value.object fields).Sorted) :
    List.Forall₂ (Gives c text fields) (fieldDeclarations c fields)
      (groupTokens c [] none (.start text) (.object fields)) := by
  have hgives := gives_childTokens hsorted rfl (@Reached.document c text fields)
  rwa [map_below_nil, ← groupTokens_document] at hgives

/-- Every token of a document is given by a declaration. -/
lemma exists_gives (c : Context) (text : List Char) {fields : Fields}
    (hsorted : (Value.object fields).Sorted) {t : Token}
    (ht : t ∈ groupTokens c [] none (.start text) (.object fields)) :
    ∃ d, Gives c text fields d t := by
  have hgives := gives_groupTokens c text hsorted
  generalize groupTokens c [] none (.start text) (.object fields) = tokens,
    fieldDeclarations c fields = declarations at ht hgives
  induction hgives with
  | nil => cases ht
  | cons hfirst _ ih =>
    rcases List.mem_cons.mp ht with rfl | ht
    · exact ⟨_, hfirst⟩
    · exact ih ht

end DesignTokens.TokenFile
