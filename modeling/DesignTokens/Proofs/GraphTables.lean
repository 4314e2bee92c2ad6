import DesignTokens.Proofs.MentionOrder
import Mathlib.Data.List.Sort
import Std.Data.HashMap

/-!
# A graph kept in tables

A graph answers many questions by name. For that it can be kept in three tables (`Tables`): the
names by index with the index of each name, the dependencies of each name, and edges between indices
that lead from a dependency to what depends on it. The two operations that build a graph change the
tables one after the other and stop early where nothing is new.

`Mirrors` says what the tables have to do with the graph and with each other. Each operation keeps
it (`Mirrors.addNode`, `Mirrors.addDependency`), so whatever edits the tables were built by, they
answer as the graph does (`Mirrors.shows`), and the answers are lists in the order of first mention
(`tables_in_step`).
-/

namespace DesignTokens

namespace Graph

/-! ## Places of names -/

/-- The number of a name is its place among the nodes. -/
lemma index?_of_mem {g : Graph} {name : String} (h : name ∈ g.nodes) :
    g.index? name = some (g.nodes.idxOf name) := by
  rw [index?, List.findIdx?_eq_some_of_exists ⟨name, h, by simp⟩]
  rfl

lemma index?_of_notMem {g : Graph} {name : String} (h : name ∉ g.nodes) : g.index? name = none := by
  rw [index?, List.findIdx?_eq_none_iff]
  intro n hn
  simpa using fun heq : n = name => h (heq ▸ hn)

/-- Names that are there keep their places. -/
lemma idxOf_addNode {g : Graph} {n : String} (h : n ∈ g.nodes) (name : String) :
    (g.addNode name).nodes.idxOf n = g.nodes.idxOf n := by
  rw [nodes_addNode, addNew]
  split_ifs
  · rfl
  · exact List.idxOf_append_of_mem h

lemma index?_addNode_self (g : Graph) (name : String) :
    (g.addNode name).index? name = some ((g.addNode name).nodes.idxOf name) :=
  index?_of_mem (mem_nodes_addNode.mpr (.inr rfl))

/-- The places of the dependents of a name rise. -/
lemma pairwise_dependents (g : Graph) (name : String) :
    ((g.dependents name).map g.nodes.idxOf).Pairwise (· < ·) := by
  have hnodes : g.nodes.Pairwise fun a b => g.nodes.idxOf a < g.nodes.idxOf b := by
    rw [List.pairwise_iff_getElem]
    intro i j hi hj hij
    rwa [g.nodup.idxOf_getElem, g.nodup.idxOf_getElem]
  rw [List.pairwise_map]
  exact hnodes.sublist List.filter_sublist

lemma mem_dependents {g : Graph} {a b : String} : a ∈ g.dependents b ↔ b ∈ g.dependencies a := by
  simp only [dependents, List.mem_filter, decide_eq_true_eq, mem_recordedDependents,
    mem_dependencies]
  exact ⟨fun h => h.2, fun h => ⟨h.dependent_mem, h⟩⟩

/-! ## The tables -/

/-- A graph in tables. -/
structure Tables where
  /-- The names by index. -/
  names : List String
  /-- The index of each name. -/
  indices : Std.HashMap String Nat
  /-- The dependencies of each name, in the order in which they were recorded. -/
  recorded : Std.HashMap String (List String)
  /-- From the index of a dependency to that of the name that has it, the last recorded at the
  end. -/
  edges : List (Nat × Nat)

namespace Tables

/-- The tables of the graph without names. -/
def empty : Tables := ⟨[], ∅, ∅, []⟩

/-- Mentions a name: its index, and the tables with it. -/
def addNode (t : Tables) (name : String) : Nat × Tables :=
  match t.indices[name]? with
  | some i => (i, t)
  | none =>
    (t.names.length,
      { t with
        names := t.names ++ [name]
        indices := t.indices.insert name t.names.length })

/-- The names that `name` depends on. -/
def dependencies (t : Tables) (name : String) : List String :=
  t.recorded[name]?.getD []

/-- Records that `name` depends on `target`. -/
def addDependency (t : Tables) (name target : String) : Tables :=
  let (node, t) := t.addNode name
  let (dependency, t) := t.addNode target
  if target ∈ t.dependencies name then t
  else
    { t with
      recorded := t.recorded.insert name (t.dependencies name ++ [target])
      edges := t.edges ++ [(dependency, node)] }

/-- Whether a name is mentioned. -/
def contains (t : Tables) (name : String) : Bool :=
  t.indices.contains name

/-- The number of names. -/
def size (t : Tables) : Nat :=
  t.names.length

/-- Where the edges of an index lead, the last recorded first. -/
def successors (t : Tables) (i : Nat) : List Nat :=
  (t.edges.reverse.filter fun e => e.1 = i).map Prod.snd

/-- The names that depend on `name`, in the order of their indices. -/
def dependents (t : Tables) (name : String) : List String :=
  match t.indices[name]? with
  | none => []
  | some i => (t.successors i).mergeSort.filterMap fun j => t.names[j]?

/-- The tables after an edit. -/
def apply (t : Tables) : Edit → Tables
  | .node name => (t.addNode name).2
  | .dependency name target => t.addDependency name target

/-- The tables that a sequence of edits leads to from the empty ones. -/
def build (edits : List Edit) : Tables :=
  edits.foldl apply empty

/-! ## What operations keep -/

/-- The tables hold what the graph holds. -/
structure Mirrors (t : Tables) (g : Graph) : Prop where
  names : t.names = g.nodes
  indices : ∀ n, t.indices[n]? = g.index? n
  recorded : ∀ n, t.dependencies n = g.dependencies n
  edges : t.edges = g.edges.map fun e => (g.nodes.idxOf e.target, g.nodes.idxOf e.dependent)
  /-- No dependency is recorded twice. -/
  once : g.edges.Nodup

variable {t : Tables} {g : Graph}

lemma mirrors_empty : Mirrors empty Graph.empty where
  names := rfl
  indices _ := Std.HashMap.getElem?_empty
  recorded _ := by
    rw [dependencies, empty, Std.HashMap.getElem?_empty]
    rfl
  edges := rfl
  once := List.nodup_nil

namespace Mirrors

/-- Adding a name that is there gives its number and changes nothing. -/
lemma addNode_of_mem (h : Mirrors t g) {name : String} (hname : name ∈ g.nodes) :
    t.addNode name = (g.nodes.idxOf name, t) := by
  rw [Tables.addNode, h.indices, index?_of_mem hname]

/-- A new name gets the next number and empty rows. -/
lemma addNode_of_notMem (h : Mirrors t g) {name : String} (hname : name ∉ g.nodes) :
    t.addNode name = (g.nodes.length,
      { t with
        names := g.nodes ++ [name]
        indices := t.indices.insert name g.nodes.length }) := by
  rw [Tables.addNode, h.indices, index?_of_notMem hname, h.names]

/-- The index of a name is its place in the list of names, whether it was there or not. -/
lemma addNode_fst (h : Mirrors t g) (name : String) :
    (t.addNode name).1 = (g.addNode name).nodes.idxOf name := by
  rw [nodes_addNode, addNew]
  split_ifs with hname
  · rw [h.addNode_of_mem hname]
  · rw [h.addNode_of_notMem hname, List.idxOf_append_of_notMem hname, List.idxOf_cons_self,
      Nat.add_zero]

/-- Edges keep their ends when a name is added. -/
lemma edges_addNode (h : Mirrors t g) (name : String) :
    t.edges = (g.addNode name).edges.map fun e =>
      ((g.addNode name).nodes.idxOf e.target, (g.addNode name).nodes.idxOf e.dependent) := by
  rw [h.edges, Graph.edges_addNode]
  refine List.map_congr_left fun e he => ?_
  obtain ⟨hdependent, htarget⟩ := g.closed e he
  rw [idxOf_addNode hdependent, idxOf_addNode htarget]

/-- Adding a name keeps tables and graph in step. -/
lemma addNode (h : Mirrors t g) (name : String) :
    Mirrors (t.addNode name).2 (g.addNode name) := by
  have honce : (g.addNode name).edges.Nodup := by
    rw [Graph.edges_addNode]
    exact h.once
  by_cases hname : name ∈ g.nodes
  · have hsame : g.addNode name = g := dif_pos hname
    rw [h.addNode_of_mem hname, hsame]
    exact h
  · rw [h.addNode_of_notMem hname]
    have hnodes : (g.addNode name).nodes = g.nodes ++ [name] := by
      rw [nodes_addNode, addNew, if_neg hname]
    refine ⟨hnodes.symm, fun n => ?_, fun n => ?_, h.edges_addNode name, honce⟩
    · -- Only the new name has another index than before.
      show (t.indices.insert name g.nodes.length)[n]? = _
      rw [Std.HashMap.getElem?_insert]
      by_cases hn : n = name
      · rw [hn, if_pos (by simp), index?_addNode_self, hnodes, List.idxOf_append_of_notMem hname,
          List.idxOf_cons_self, Nat.add_zero]
      · rw [if_neg (by simpa using Ne.symm hn), h.indices]
        by_cases hmem : n ∈ g.nodes
        · rw [index?_of_mem hmem, index?_of_mem (mem_nodes_addNode.mpr (.inl hmem)),
            idxOf_addNode hmem]
        · have hnone : n ∉ (g.addNode name).nodes := by
            rw [mem_nodes_addNode, not_or]
            exact ⟨hmem, hn⟩
          rw [index?_of_notMem hmem, index?_of_notMem hnone]
    · rw [dependencies_addNode]
      exact h.recorded n

/-- Adding a dependency keeps tables and graph in step. -/
lemma addDependency (h : Mirrors t g) (name target : String) :
    Mirrors (t.addDependency name target) (g.addDependency name target) := by
  have hnode := h.addNode name
  have hboth := hnode.addNode target
  have hname : name ∈ (g.addNode name).nodes := mem_nodes_addNode.mpr (.inr rfl)
  -- The two indices are those of the names in the graph with both of them.
  have hindex : ((t.addNode name).2.addNode target).1 =
      ((g.addNode name).addNode target).nodes.idxOf target := hnode.addNode_fst target
  have hindex' : (t.addNode name).1 = ((g.addNode name).addNode target).nodes.idxOf name := by
    rw [h.addNode_fst name, idxOf_addNode hname]
  have hold : target ∈ ((t.addNode name).2.addNode target).2.dependencies name ↔
      ⟨name, target⟩ ∈ ((g.addNode name).addNode target).edges := by
    rw [hboth.recorded, mem_dependencies]
    rfl
  simp only [Tables.addDependency, Graph.addDependency]
  by_cases hmem : ⟨name, target⟩ ∈ ((g.addNode name).addNode target).edges
  · rw [if_pos (hold.mpr hmem), if_pos hmem]
    exact hboth
  · rw [if_neg (mt hold.mp hmem), if_neg hmem]
    refine ⟨hboth.names, hboth.indices, fun n => ?_, ?_, ?_⟩
    · -- What is recorded for other names stays.
      rw [Tables.dependencies, Std.HashMap.getElem?_insert]
      by_cases hn : n = name
      · rw [hn, if_pos (by simp), Option.getD_some, hboth.recorded]
        simp [Graph.dependencies, List.filter_append]
      · rw [if_neg (by simpa using Ne.symm hn)]
        refine (hboth.recorded n).trans ?_
        simp [Graph.dependencies, List.filter_append, Ne.symm hn]
    · show ((t.addNode name).2.addNode target).2.edges ++ [_] = _
      rw [hboth.edges, hindex, hindex', List.map_append]
      rfl
    · have honce := hboth.once.concat hmem
      rwa [List.concat_eq_append] at honce

/-- An edit keeps tables and graph in step. -/
lemma apply (h : Mirrors t g) (e : Edit) : Mirrors (t.apply e) (e.apply g) := by
  cases e with
  | node name => exact h.addNode name
  | dependency name target => exact h.addDependency name target

lemma foldl (h : Mirrors t g) (edits : List Edit) :
    Mirrors (edits.foldl Tables.apply t) (edits.foldl Edit.apply g) := by
  induction edits generalizing t g with
  | nil => exact h
  | cons e edits ih => exact ih (h.apply e)

/-! ## What the tables show -/

/-- The edges of a name lead to its dependents. -/
lemma successors_eq (h : Mirrors t g) (name : String) :
    t.successors (g.nodes.idxOf name) =
      ((g.recordedDependents name).map g.nodes.idxOf).reverse := by
  have hends : ∀ e ∈ g.edges, decide (g.nodes.idxOf e.target = g.nodes.idxOf name) =
      decide (e.target = name) := by
    intro e he
    rw [decide_eq_decide]
    exact List.idxOf_inj (g.closed e he).2
  rw [successors, h.edges, List.filter_reverse, List.map_reverse, List.filter_map, List.map_map,
    recordedDependents, List.map_map]
  congr 1
  rw [← List.filter_congr hends]
  rfl

/-- No name is recorded twice as a dependent of another. -/
lemma nodup_recordedDependents (h : Mirrors t g) (name : String) :
    (g.recordedDependents name).Nodup := by
  refine List.Nodup.map_on ?_ (h.once.filter _)
  intro e he e' he' heq
  simp only [List.mem_filter, decide_eq_true_eq] at he he'
  cases e
  cases e'
  simp_all

/-- Sorted by index, the dependents of a name are in the order of all names. -/
lemma mergeSort_successors (h : Mirrors t g) (name : String) :
    (t.successors (g.nodes.idxOf name)).mergeSort = (g.dependents name).map g.nodes.idxOf := by
  have hperm : (g.recordedDependents name).Perm (g.dependents name) := by
    have hnodup : (g.dependents name).Nodup := g.nodup.filter _
    rw [List.perm_ext_iff_of_nodup (h.nodup_recordedDependents name) hnodup]
    intro a
    rw [mem_dependents, mem_recordedDependents, mem_dependencies]
  rw [h.successors_eq]
  refine List.Perm.eq_of_sortedLE List.sortedLE_mergeSort ?_ ?_
  · exact ((pairwise_dependents g name).imp Nat.le_of_lt).sortedLE
  · exact (List.mergeSort_perm _ _).trans ((List.reverse_perm _).trans (hperm.map _))

/-- Tables and graph list the same dependents in the same order. -/
lemma dependents_eq (h : Mirrors t g) (name : String) : t.dependents name = g.dependents name := by
  by_cases hname : name ∈ g.nodes
  · have hnames : ∀ a ∈ g.dependents name, t.names[g.nodes.idxOf a]? = some a := by
      intro a ha
      rw [h.names, List.getElem?_idxOf (List.mem_of_mem_filter ha)]
    rw [dependents, h.indices, index?_of_mem hname]
    show (t.successors _).mergeSort.filterMap _ = _
    rw [h.mergeSort_successors, List.filterMap_map]
    exact (List.filterMap_congr hnames).trans List.filterMap_some
  · rw [dependents, h.indices, index?_of_notMem hname]
    symm
    rw [List.eq_nil_iff_forall_not_mem]
    intro a ha
    exact hname (mem_dependencies.mp (mem_dependents.mp ha)).target_mem

end Mirrors

/-- The tables give the answers that the graph gives. -/
structure Shows (t : Tables) (g : Graph) : Prop where
  names : t.names = g.nodes
  contains : ∀ n, t.contains n = g.contains n
  size : t.size = g.size
  /-- Mentioning a name gives its place. -/
  addNode : ∀ n, some (t.addNode n).1 = (g.addNode n).index? n
  dependencies : ∀ n, t.dependencies n = g.dependencies n
  dependents : ∀ n, t.dependents n = g.dependents n

/-- Tables in step with a graph give the graph's answers. -/
lemma Mirrors.shows (h : Mirrors t g) : Shows t g where
  names := h.names
  contains n := by
    rw [contains, Std.HashMap.contains_eq_isSome_getElem?, h.indices, Graph.contains]
    by_cases hn : n ∈ g.nodes
    · simp [index?_of_mem hn, hn]
    · simp [index?_of_notMem hn, hn]
  size := congrArg List.length h.names
  addNode n := by rw [h.addNode_fst, index?_addNode_self]
  dependencies := h.recorded
  dependents := h.dependents_eq

end Tables

/-- Whatever edits a graph was built by: its names are those that were mentioned, each once and in
the order of first mention, and the other answers go by that list. A name that is added has its
place there as index. The dependencies of a name are the targets that were recorded for it, each
once and in the order of first recording; the dependents of a name are the names that have it as a
dependency, each once and in the order of all names. Tables that are built by the same edits give
the same answers. -/
theorem tables_in_step (edits : List Edit) :
    FirstMentions (edits.flatMap Edit.names) (build edits).nodes ∧
    (∀ n, (build edits).contains n = true ↔ n ∈ (build edits).nodes) ∧
    (build edits).size = (build edits).nodes.length ∧
    (∀ n, ((build edits).addNode n).index? n =
      some ((build (edits ++ [.node n])).nodes.idxOf n)) ∧
    (∀ a, FirstMentions (edits.flatMap (Edit.targets a)) ((build edits).dependencies a) ∧
      ∀ b, b ∈ (build edits).dependencies a ↔ Edit.dependency a b ∈ edits) ∧
    (∀ b, ((build edits).dependents b).Nodup ∧
      ((build edits).dependents b).Sublist (build edits).nodes ∧
      ∀ a, a ∈ (build edits).dependents b ↔ b ∈ (build edits).dependencies a) ∧
    (Tables.build edits).Shows (build edits) := by
  have hadd : ∀ n, build (edits ++ [.node n]) = (build edits).addNode n := fun n => by
    rw [build, List.foldl_append]
    rfl
  refine ⟨?_, fun n => decide_eq_true_iff, rfl, fun n => ?_, fun a => ⟨?_, fun b => ?_⟩,
    fun b => ?_, (Tables.mirrors_empty.foldl edits).shows⟩
  · rw [nodes_build]
    exact firstMentions_foldl _
  · rw [hadd]
    exact index?_addNode_self _ n
  · rw [dependencies_build]
    exact firstMentions_foldl _
  · rw [mem_dependencies, dependsOn_build]
  · exact ⟨(build edits).nodup.filter _, List.filter_sublist, fun a => mem_dependents⟩

end Graph

end DesignTokens
