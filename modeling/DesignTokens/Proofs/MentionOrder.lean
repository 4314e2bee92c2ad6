import DesignTokens.Proofs.Dependencies
import Mathlib.Data.List.Nodup
import Mathlib.Tactic.Common

/-!
# Lists in the order of first mention

The names of a graph, the dependencies of a name and the references of a token are all listed in one
way: each once, in the order in which they come first (`FirstMentions`). Such a list grows at its
end by what is not listed yet (`addNew`), and that keeps the order (`FirstMentions.addNew`). The
three lists are the result of doing this mention by mention:

* `Reference.distinct_eq`: names that a text refers to, without repetition;
* `Graph.nodes_build`: names that edits mention;
* `Graph.dependencies_build`: targets that edits state for a name.
-/

namespace DesignTokens

/-- The list with a name at its end, unless the name is listed already. -/
def addNew (listed : List String) (name : String) : List String :=
  if name ∈ listed then listed else listed ++ [name]

/-- `listed` has each of the mentions once, in the order in which they come first. -/
structure FirstMentions (mentions listed : List String) : Prop where
  nodup : listed.Nodup
  mem_iff : ∀ n, n ∈ listed ↔ n ∈ mentions
  /-- What stands before another was mentioned before it. -/
  ordered : listed.Pairwise fun a b => mentions.idxOf a < mentions.idxOf b

namespace FirstMentions

lemma nil : FirstMentions [] [] :=
  ⟨List.nodup_nil, fun _ => Iff.rfl, .nil⟩

/-- One more mention. -/
lemma addNew {mentions listed : List String} (h : FirstMentions mentions listed) (name : String) :
    FirstMentions (mentions ++ [name]) (DesignTokens.addNew listed name) := by
  -- The names that are listed keep the places of their first mentions.
  have hplace : ∀ a ∈ listed, (mentions ++ [name]).idxOf a = mentions.idxOf a :=
    fun a ha => List.idxOf_append_of_mem ((h.mem_iff a).mp ha)
  have hordered : listed.Pairwise fun a b =>
      (mentions ++ [name]).idxOf a < (mentions ++ [name]).idxOf b := by
    refine h.ordered.imp_of_mem fun ha hb hlt => ?_
    rwa [hplace _ ha, hplace _ hb]
  unfold DesignTokens.addNew
  split_ifs with hname
  · refine ⟨h.nodup, fun n => ?_, hordered⟩
    rw [h.mem_iff, List.mem_append, List.mem_singleton]
    constructor
    · exact Or.inl
    · rintro (hn | rfl)
      · exact hn
      · exact (h.mem_iff n).mp hname
  · have hmentions : name ∉ mentions := fun hmem => hname ((h.mem_iff name).mpr hmem)
    refine ⟨?_, fun n => ?_, ?_⟩
    · rw [← List.concat_eq_append]
      exact h.nodup.concat hname
    · rw [List.mem_append, List.mem_append, h.mem_iff]
    · rw [List.pairwise_append]
      refine ⟨hordered, List.pairwise_singleton _ name, fun a ha b hb => ?_⟩
      rw [List.mem_singleton.mp hb, hplace a ha, List.idxOf_append_of_notMem hmentions]
      exact Nat.lt_of_lt_of_le (List.idxOf_lt_length_iff.mpr ((h.mem_iff a).mp ha))
        (Nat.le_add_right _ _)

/-- Any number of mentions. -/
lemma foldl {mentions listed : List String} (h : FirstMentions mentions listed)
    (names : List String) :
    FirstMentions (mentions ++ names) (names.foldl DesignTokens.addNew listed) := by
  induction names generalizing mentions listed with
  | nil => rwa [List.append_nil]
  | cons name names ih =>
    have hrest := ih (h.addNew name)
    rwa [List.append_assoc, List.singleton_append] at hrest

end FirstMentions

/-- The names that come first, added one by one. -/
lemma firstMentions_foldl (names : List String) :
    FirstMentions names (names.foldl addNew []) :=
  FirstMentions.nil.foldl names

/-! ## The references of a token -/

namespace Reference

/-- Listing the names that are not seen yet is adding them one by one. -/
lemma append_distinct {seen listed : List String} (h : ∀ n, n ∈ seen ↔ n ∈ listed)
    (names : List String) :
    listed ++ distinct seen names = names.foldl addNew listed := by
  induction names generalizing seen listed with
  | nil => rw [distinct, List.append_nil, List.foldl_nil]
  | cons name names ih =>
    rw [distinct, List.foldl_cons, addNew]
    by_cases hname : name ∈ listed
    · rw [if_pos ((h name).mpr hname), if_pos hname, ih h]
    · have hseen : ∀ n, n ∈ name :: seen ↔ n ∈ listed ++ [name] := by
        intro n
        rw [List.mem_cons, List.mem_append, List.mem_singleton, h n, or_comm]
      rw [if_neg (mt (h name).mp hname), if_neg hname, ← ih hseen, List.append_assoc,
        List.singleton_append]

/-- The distinct names of a list are its names added one by one. -/
lemma distinct_eq (names : List String) : distinct [] names = names.foldl addNew [] := by
  rw [← append_distinct (fun _ => Iff.rfl) names, List.nil_append]

end Reference

/-! ## The names and dependencies of a graph -/

namespace Graph

lemma nodes_addNode (g : Graph) (name : String) :
    (g.addNode name).nodes = addNew g.nodes name := by
  unfold addNode addNew
  split <;> rfl

/-- A dependency mentions its own name first and then its target. -/
lemma nodes_addDependency (g : Graph) (name target : String) :
    (g.addDependency name target).nodes = addNew (addNew g.nodes name) target := by
  rw [← nodes_addNode, ← nodes_addNode]
  simp only [addDependency]
  split <;> rfl

lemma dependencies_addNode (g : Graph) (name a : String) :
    (g.addNode name).dependencies a = g.dependencies a := by
  rw [dependencies, edges_addNode, dependencies]

lemma edges_addDependency (g : Graph) (name target : String) :
    (g.addDependency name target).edges =
      if ⟨name, target⟩ ∈ g.edges then g.edges else g.edges ++ [⟨name, target⟩] := by
  have hedges : ((g.addNode name).addNode target).edges = g.edges := by
    rw [edges_addNode, edges_addNode]
  simp only [addDependency, hedges]
  split
  · exact hedges
  · rfl

/-- A dependency is put at the end of those of its name. -/
lemma dependencies_addDependency (g : Graph) (name target a : String) :
    (g.addDependency name target).dependencies a =
      if a = name then addNew (g.dependencies a) target else g.dependencies a := by
  rw [dependencies, edges_addDependency, addNew]
  by_cases hold : ⟨name, target⟩ ∈ g.edges
  · rw [if_pos hold]
    split_ifs with ha hmem
    · rfl
    · exact absurd (mem_dependencies.mpr (ha ▸ hold)) hmem
    · rfl
  · rw [if_neg hold, List.filter_append, List.map_append]
    by_cases ha : a = name
    · subst ha
      have hmem : target ∉ g.dependencies a := fun hmem => hold (mem_dependencies.mp hmem)
      rw [if_pos rfl, if_neg hmem]
      simp [dependencies]
    · simp [dependencies, ha, Ne.symm ha]

/-- The targets that an edit states for a name. -/
def Edit.targets (name : String) : Edit → List String
  | .node _ => []
  | .dependency name' target => if name' = name then [target] else []

/-- An edit adds its names in their order. -/
lemma nodes_apply (g : Graph) (e : Edit) : (e.apply g).nodes = e.names.foldl addNew g.nodes := by
  cases e with
  | node name => exact nodes_addNode g name
  | dependency name target => exact nodes_addDependency g name target

/-- An edit adds its targets to the dependencies of their name, in their order. -/
lemma dependencies_apply (g : Graph) (e : Edit) (a : String) :
    (e.apply g).dependencies a = (e.targets a).foldl addNew (g.dependencies a) := by
  cases e with
  | node name => exact dependencies_addNode g name a
  | dependency name target =>
    rw [Edit.apply, dependencies_addDependency, Edit.targets]
    by_cases ha : a = name
    · rw [if_pos ha, if_pos ha.symm]
      rfl
    · rw [if_neg ha, if_neg (Ne.symm ha)]
      rfl

/-- The names of a built graph, mention by mention. -/
lemma nodes_build (edits : List Edit) :
    (build edits).nodes = (edits.flatMap Edit.names).foldl addNew [] := by
  rw [build, List.foldl_flatMap]
  exact (List.foldl_hom nodes fun g e => (nodes_apply g e).symm).symm

/-- The dependencies of a name in a built graph, statement by statement. -/
lemma dependencies_build (edits : List Edit) (a : String) :
    (build edits).dependencies a = (edits.flatMap (Edit.targets a)).foldl addNew [] := by
  rw [build, List.foldl_flatMap]
  exact (List.foldl_hom (dependencies · a) fun g e => (dependencies_apply g e a).symm).symm

end Graph

end DesignTokens
