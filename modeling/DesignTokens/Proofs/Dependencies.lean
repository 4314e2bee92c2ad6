import DesignTokens.Graph
import Mathlib.Data.List.Pairwise
import Mathlib.Logic.Relation

/-!
# The dependency relation of a graph

What a graph records, as a relation between names, and how the two operations that build a graph
change it:

* `Graph.DependsOn` is the recorded relation, `Cyclic` says that a relation leads some name back to
  itself, and `TargetsFirst` that a list has the targets of a relation before what is related to
  them;
* a graph that was built by any sequence of edits has the names that the edits mention and records
  the dependencies that they state (`mem_nodes_build`, `dependsOn_build`).
-/

namespace DesignTokens

open Relation

/-- Some element reaches itself in one or more steps. -/
def Cyclic {α : Type} (r : α → α → Prop) : Prop :=
  ∃ a, TransGen r a a

/-- A list from the first occurrence of an element on starts with that element. -/
lemma dropWhile_ne_of_mem {α : Type} [DecidableEq α] {x : α} {l : List α} (h : x ∈ l) :
    ∃ rest, l.dropWhile (· ≠ x) = x :: rest := by
  induction l with
  | nil => cases h
  | cons a l ih =>
    by_cases hax : a = x
    · exact ⟨l, by simp [hax]⟩
    · obtain ⟨rest, hrest⟩ := ih ((List.mem_cons.mp h).resolve_left (Ne.symm hax))
      exact ⟨rest, by simpa [hax] using hrest⟩

/-- A list is sorted into the order that its elements have in a strictly sorted one. -/
lemma mergeSort_eq_of_perm {α : Type} {le : α → α → Bool}
    (htrans : ∀ a b c, le a b = true → le b c = true → le a c = true)
    (htotal : ∀ a b, (le a b || le b a) = true) {l sorted : List α} (hperm : l.Perm sorted)
    (hsorted : sorted.Pairwise fun a b => le b a = false) : l.mergeSort le = sorted := by
  have hle : sorted.Pairwise fun a b => le a b = true := by
    refine hsorted.imp fun {a b} hba => ?_
    simpa [hba] using htotal a b
  -- Of two elements that are not in strict order both ways, each would come before the other.
  have happart : sorted.Pairwise fun a b => ¬ (le a b = true ∧ le b a = true) :=
    hsorted.imp fun {a b} hba h => by simp [hba] at h
  have hmerge := (List.mergeSort_perm l le).trans hperm
  refine hmerge.eq_of_pairwise ?_ (List.pairwise_mergeSort htrans htotal l) hle
  intro a b ha hb hab hba
  refine Classical.byContradiction fun hne => ?_
  have hsymm : Std.Symm fun a b => ¬ (le a b = true ∧ le b a = true) :=
    ⟨fun a b h h' => h h'.symm⟩
  exact happart.forall (hmerge.mem_iff.mp ha) hb hne ⟨hab, hba⟩

/-! ## Lists that put targets first -/

/-- Each element of the list comes after all that it is related to, which may also be among those
that came `before`. -/
def TargetsFirst {α : Type} (r : α → α → Prop) : (before : List α) → List α → Prop
  | _, [] => True
  | before, a :: rest => (∀ b, r a b → b ∈ before) ∧ TargetsFirst r (a :: before) rest

namespace TargetsFirst

variable {α : Type} {r : α → α → Prop} {before front back : List α}

/-- Targets come first in two parts if they do in each, after what is before it. -/
lemma append (hfront : ∀ a ∈ front, ∀ b, r a b → b ∈ before)
    (hback : TargetsFirst r (front.reverse ++ before) back) :
    TargetsFirst r before (front ++ back) := by
  induction front generalizing before with
  | nil => exact hback
  | cons a front ih =>
    refine ⟨hfront a (List.mem_cons_self ..), ih ?_ (by simpa using hback)⟩
    intro c hc b hb
    exact List.mem_cons_of_mem _ (hfront c (List.mem_cons_of_mem _ hc) b hb)

/-- The first part of a list in which targets come first is one. -/
lemma of_append (h : TargetsFirst r before (front ++ back)) : TargetsFirst r before front := by
  induction front generalizing before with
  | nil => trivial
  | cons a front ih => exact ⟨h.1, ih h.2⟩

/-- A target stands in front of the element that is related to it. -/
lemma mem_front {a b : α} (h : TargetsFirst r before (front ++ a :: back)) (hab : r a b) :
    b ∈ before ∨ b ∈ front := by
  induction front generalizing before with
  | nil => exact .inl (h.1 b hab)
  | cons c front ih =>
    rcases ih h.2 with hb | hb
    · rcases List.mem_cons.mp hb with rfl | hb
      · exact .inr (List.mem_cons_self ..)
      · exact .inl hb
    · exact .inr (List.mem_cons_of_mem _ hb)

/-- No element is related to a later one, so all targets come first. -/
lemma of_pairwise {l : List α} (hirrefl : ∀ a, ¬ r a a) (hl : l.Pairwise fun a b => ¬ r a b)
    (hmem : ∀ a ∈ l, ∀ b, r a b → b ∈ before ∨ b ∈ l) : TargetsFirst r before l := by
  induction l generalizing before with
  | nil => trivial
  | cons a l ih =>
    obtain ⟨ha, hl⟩ := List.pairwise_cons.mp hl
    refine ⟨fun b hb => ?_, ih hl fun c hc b hb => ?_⟩
    · rcases hmem a (List.mem_cons_self ..) b hb with h | h
      · exact h
      · rcases List.mem_cons.mp h with rfl | h
        · exact absurd hb (hirrefl b)
        · exact absurd hb (ha b h)
    · rcases hmem c (List.mem_cons_of_mem _ hc) b hb with h | h
      · exact .inl (List.mem_cons_of_mem _ h)
      · rcases List.mem_cons.mp h with rfl | h
        · exact .inl (List.mem_cons_self ..)
        · exact .inr h

/-- What passes from the targets of an element to the element holds of the whole list. -/
lemma forall_mem {P : α → Prop} {l : List α} (h : TargetsFirst r before l)
    (hbefore : ∀ a ∈ before, P a) (hstep : ∀ a ∈ l, (∀ b, r a b → P b) → P a) : ∀ a ∈ l, P a := by
  induction l generalizing before with
  | nil => simp
  | cons a l ih =>
    have ha : P a := hstep a (List.mem_cons_self ..) fun b hb => hbefore b (h.1 b hb)
    have hl := ih h.2 (List.forall_mem_cons.mpr ⟨ha, hbefore⟩)
      fun c hc => hstep c (List.mem_cons_of_mem _ hc)
    exact List.forall_mem_cons.mpr ⟨ha, hl⟩

end TargetsFirst

namespace Graph

/-- `a` was recorded to depend on `b`. -/
def DependsOn (g : Graph) (a b : String) : Prop :=
  ⟨a, b⟩ ∈ g.edges

/-- The dependencies of a name are what it depends on. -/
@[simp]
lemma mem_dependencies {g : Graph} {a b : String} : b ∈ g.dependencies a ↔ g.DependsOn a b := by
  simp only [dependencies, DependsOn, List.mem_map, List.mem_filter, decide_eq_true_eq]
  constructor
  · rintro ⟨⟨dependent, target⟩, ⟨hmem, rfl⟩, rfl⟩
    exact hmem
  · exact fun h => ⟨⟨a, b⟩, ⟨h, rfl⟩, rfl⟩

/-- The recorded dependents of a name are what depends on it. -/
@[simp]
lemma mem_recordedDependents {g : Graph} {a b : String} :
    b ∈ g.recordedDependents a ↔ g.DependsOn b a := by
  simp only [recordedDependents, DependsOn, List.mem_map, List.mem_filter, decide_eq_true_eq]
  constructor
  · rintro ⟨⟨dependent, target⟩, ⟨hmem, rfl⟩, rfl⟩
    exact hmem
  · exact fun h => ⟨⟨b, a⟩, ⟨h, rfl⟩, rfl⟩

lemma DependsOn.dependent_mem {g : Graph} {a b : String} (h : g.DependsOn a b) : a ∈ g.nodes :=
  (g.closed _ h).1

lemma DependsOn.target_mem {g : Graph} {a b : String} (h : g.DependsOn a b) : b ∈ g.nodes :=
  (g.closed _ h).2

/-! ## One edit -/

lemma edges_addNode (g : Graph) (name : String) : (g.addNode name).edges = g.edges := by
  unfold addNode
  split <;> rfl

/-- A dependency adds its two names. -/
lemma mem_nodes_addDependency {g : Graph} {name target n : String} :
    n ∈ (g.addDependency name target).nodes ↔ n ∈ g.nodes ∨ n = name ∨ n = target := by
  have hnodes : (g.addDependency name target).nodes = ((g.addNode name).addNode target).nodes := by
    simp only [addDependency]
    split <;> rfl
  rw [hnodes, mem_nodes_addNode, mem_nodes_addNode, or_assoc]

/-- A new node depends on nothing. -/
lemma dependsOn_addNode {g : Graph} {name a b : String} :
    (g.addNode name).DependsOn a b ↔ g.DependsOn a b := by
  rw [DependsOn, edges_addNode, DependsOn]

/-- A new dependency adds itself and no other. -/
lemma dependsOn_addDependency {g : Graph} {name target a b : String} :
    (g.addDependency name target).DependsOn a b ↔ g.DependsOn a b ∨ (a = name ∧ b = target) := by
  have hedges : ((g.addNode name).addNode target).edges = g.edges := by
    rw [edges_addNode, edges_addNode]
  simp only [addDependency, DependsOn]
  split
  · next h =>
    rw [hedges] at h ⊢
    constructor
    · exact Or.inl
    · rintro (hab | ⟨rfl, rfl⟩)
      · exact hab
      · exact h
  · show _ ∈ ((g.addNode name).addNode target).edges ++ [_] ↔ _
    rw [hedges, List.mem_append, List.mem_singleton, Dependency.mk.injEq]

/-! ## Any number of edits -/

/-- An operation that builds up a graph. -/
inductive Edit where
  /-- Mentions a name. -/
  | node (name : String)
  /-- Records that `name` depends on `target`. -/
  | dependency (name target : String)
deriving DecidableEq, Repr

/-- The names that an edit mentions. -/
def Edit.names : Edit → List String
  | .node name => [name]
  | .dependency name target => [name, target]

/-- A graph after an edit. -/
def Edit.apply (g : Graph) : Edit → Graph
  | .node name => g.addNode name
  | .dependency name target => g.addDependency name target

/-- The graph that a sequence of edits leads to from the empty one. -/
def build (edits : List Edit) : Graph :=
  edits.foldl Edit.apply empty

/-- An edit adds its names. -/
lemma mem_nodes_apply {g : Graph} {e : Edit} {n : String} :
    n ∈ (e.apply g).nodes ↔ n ∈ g.nodes ∨ n ∈ e.names := by
  cases e with
  | node name => simp [Edit.apply, Edit.names, mem_nodes_addNode]
  | dependency name target => simp [Edit.apply, Edit.names, mem_nodes_addDependency]

/-- An edit adds the dependency that it states, and no other. -/
lemma dependsOn_apply {g : Graph} {e : Edit} {a b : String} :
    (e.apply g).DependsOn a b ↔ g.DependsOn a b ∨ e = .dependency a b := by
  cases e with
  | node name => simp [Edit.apply, dependsOn_addNode]
  | dependency name target =>
    rw [Edit.apply, dependsOn_addDependency, Edit.dependency.injEq, eq_comm, @eq_comm _ b]

/-- The nodes after some edits are those before and the names of the edits. -/
lemma mem_nodes_foldl_apply {g : Graph} {edits : List Edit} {n : String} :
    n ∈ (edits.foldl Edit.apply g).nodes ↔ n ∈ g.nodes ∨ ∃ e ∈ edits, n ∈ e.names := by
  induction edits generalizing g with
  | nil => simp
  | cons e rest ih =>
    rw [List.foldl_cons, ih, mem_nodes_apply]
    simp [or_assoc]

/-- The dependencies after some edits are those before and those that are stated. -/
lemma dependsOn_foldl_apply {g : Graph} {edits : List Edit} {a b : String} :
    (edits.foldl Edit.apply g).DependsOn a b ↔ g.DependsOn a b ∨ .dependency a b ∈ edits := by
  induction edits generalizing g with
  | nil => simp
  | cons e rest ih =>
    rw [List.foldl_cons, ih, dependsOn_apply, List.mem_cons, or_assoc, @eq_comm _ e]

/-- The names of a built graph are the ones that were mentioned. -/
lemma mem_nodes_build {edits : List Edit} {n : String} :
    n ∈ (build edits).nodes ↔ ∃ e ∈ edits, n ∈ e.names := by
  rw [build, mem_nodes_foldl_apply]
  simp [empty]

/-- The dependencies of a built graph are the ones that were stated. -/
lemma dependsOn_build {edits : List Edit} {a b : String} :
    (build edits).DependsOn a b ↔ .dependency a b ∈ edits := by
  rw [build, dependsOn_foldl_apply]
  simp [empty, DependsOn]

/-! ## Counting what is not met yet

Both searches of a graph meet each name at most once. What is left of one is bounded by the names
that it has not met and the dependencies at those names. -/

/-- Meeting `x` takes the elements at `x` from those that are not met. -/
private lemma length_filter_notMem_cons {α : Type} (key : α → String) (l : List α) {x : String}
    {met : List String} (hx : x ∉ met) :
    (l.filter fun a => key a ∉ x :: met).length + (l.filter fun a => key a = x).length
      = (l.filter fun a => key a ∉ met).length := by
  induction l with
  | nil => rfl
  | cons a l ih =>
    by_cases hax : key a = x
    · simp [hax, hx] at ih ⊢
      omega
    · by_cases hmet : key a ∈ met
      · simp [hax, hmet] at ih ⊢
        omega
      · simp [hax, hmet] at ih ⊢
        omega

/-- The number of names that are not met, and of dependencies that have such a name at the end that
`key` picks. -/
def unmet (g : Graph) (key : Dependency → String) (met : List String) : Nat :=
  (g.nodes.filter (· ∉ met)).length + (g.edges.filter fun e => key e ∉ met).length

lemma unmet_le (g : Graph) (key : Dependency → String) (met : List String) :
    g.unmet key met ≤ g.nodes.length + g.edges.length :=
  Nat.add_le_add (List.length_filter_le _ _) (List.length_filter_le _ _)

/-- Meeting a name pays for the name and for its dependencies. -/
lemma unmet_cons {g : Graph} (key : Dependency → String) {x : String} {met : List String}
    (hmem : x ∈ g.nodes) (hx : x ∉ met) :
    g.unmet key (x :: met) + (g.edges.filter fun e => key e = x).length + 1 ≤ g.unmet key met := by
  have hnodes := length_filter_notMem_cons id g.nodes hx
  have hedges := length_filter_notMem_cons key g.edges hx
  have hone : 0 < (g.nodes.filter fun a => id a = x).length :=
    List.length_pos_of_mem (List.mem_filter.mpr ⟨hmem, by simp⟩)
  simp only [unmet, id_eq] at *
  omega

end Graph

end DesignTokens
