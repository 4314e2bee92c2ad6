import DesignTokens.Error
import DesignTokens.Reference

/-!
# Dependency graphs

A graph of names in which a name may depend on others. Names are kept in the order in which they
were first mentioned and dependencies in the order in which they were recorded. A name that is
referred to and that no token bears is a node all the same.

`Graph.findCycle` looks for names that depend on themselves and `Graph.order` puts each name after
those it depends on.
-/

namespace DesignTokens

/-- A recorded dependency. -/
structure Dependency where
  /-- The name that depends on another. -/
  dependent : String
  /-- The name it depends on. -/
  target : String
deriving DecidableEq, Repr

/-- A dependency graph. -/
structure Graph where
  /-- The names in the order of their first mention. -/
  nodes : List String
  /-- The dependencies in the order in which they were recorded. -/
  edges : List Dependency
  /-- No name is listed twice. -/
  nodup : nodes.Nodup
  /-- Dependencies are between names of the graph. -/
  closed : ∀ e ∈ edges, e.dependent ∈ nodes ∧ e.target ∈ nodes
deriving Repr

namespace Graph

/-- The graph without names. -/
def empty : Graph where
  nodes := []
  edges := []
  nodup := List.nodup_nil
  closed := by simp

instance : Inhabited Graph := ⟨empty⟩

/-- Mentions a name. -/
def addNode (g : Graph) (name : String) : Graph :=
  if h : name ∈ g.nodes then g
  else
    { g with
      nodes := g.nodes ++ [name]
      nodup := by
        rw [List.nodup_append]
        refine ⟨g.nodup, by simp, ?_⟩
        rintro a ha b hb rfl
        exact h (List.mem_singleton.mp hb ▸ ha)
      closed := fun e he =>
        ⟨List.mem_append_left _ (g.closed e he).1, List.mem_append_left _ (g.closed e he).2⟩ }

/-- Mentioning a name adds it to those of the graph. -/
theorem mem_nodes_addNode {g : Graph} {name n : String} :
    n ∈ (g.addNode name).nodes ↔ n ∈ g.nodes ∨ n = name := by
  unfold addNode
  split
  · next h =>
    constructor
    · exact Or.inl
    · rintro (hn | rfl)
      · exact hn
      · exact h
  · simp

/-- Records that `name` depends on `target`. -/
def addDependency (g : Graph) (name target : String) : Graph :=
  let g' := (g.addNode name).addNode target
  if ⟨name, target⟩ ∈ g'.edges then g'
  else
    { g' with
      edges := g'.edges ++ [⟨name, target⟩]
      closed := by
        intro e he
        rcases List.mem_append.mp he with he | he
        · exact g'.closed e he
        · rw [List.mem_singleton.mp he, mem_nodes_addNode, mem_nodes_addNode, mem_nodes_addNode]
          exact ⟨.inl (.inr rfl), .inr rfl⟩ }

/-- Whether a name is mentioned. -/
def contains (g : Graph) (name : String) : Bool :=
  name ∈ g.nodes

/-- The number of names. -/
def size (g : Graph) : Nat :=
  g.nodes.length

/-- The place of a name among the names. -/
def index? (g : Graph) (name : String) : Option Nat :=
  g.nodes.findIdx? (· = name)

/-- The names that `name` depends on, in the order in which they were recorded. -/
def dependencies (g : Graph) (name : String) : List String :=
  (g.edges.filter fun e => e.dependent = name).map Dependency.target

/-- The names that depend on `name`, in the order in which they were recorded. -/
def recordedDependents (g : Graph) (name : String) : List String :=
  (g.edges.filter fun e => e.target = name).map Dependency.dependent

/-- The names that depend on `name`, in the order of all names. -/
def dependents (g : Graph) (name : String) : List String :=
  let found := g.recordedDependents name
  g.nodes.filter fun n => n ∈ found

/-- The graph of the references in a batch of tokens: first all tokens, then what they refer to. -/
def ofTokens (tokens : List Token) (version : Version) : Graph :=
  let named := tokens.foldl (fun g t => g.addNode t.name) empty
  tokens.foldl (fun g t =>
    (t.dependencies (t.effectiveVersion version)).foldl
      (fun g target => g.addDependency t.name target) g)
    named

/-! ## Cycles -/

/-- A name on the way of the search, with its dependencies that are still to be followed. -/
structure Frame where
  name : String
  pending : List String
deriving DecidableEq, Repr

/-- A depth-first search along dependencies. -/
structure Search where
  /-- The names met so far. -/
  visited : List String
  /-- The way from the start to the current name, the current name first. -/
  frames : List Frame
deriving Repr

/-- The names on the way, from the start on. -/
def Search.path (s : Search) : List String :=
  (s.frames.map Frame.name).reverse

/-- What a step of the search leads to. -/
inductive Search.Result where
  /-- The search goes on. -/
  | next (s : Search)
  /-- A name was met that is on the way already. -/
  | cycle (names : List String)
  /-- Nothing is left to follow from the start. -/
  | done (visited : List String)

/-- One step: follows the next dependency of the current name, or goes back from it. -/
def Search.step (g : Graph) (s : Search) : Search.Result :=
  match s.frames with
  | [] => .done s.visited
  | frame :: frames =>
    match frame.pending with
    | [] => .next { s with frames := frames }
    | target :: pending =>
      let back := { frame with pending := pending } :: frames
      if target ∈ s.path then .cycle (s.path.dropWhile (· ≠ target) ++ [target])
      else if target ∈ s.visited then .next { s with frames := back }
      else .next { visited := target :: s.visited
                   frames := ⟨target, g.dependencies target⟩ :: back }

/-- The search that starts at a name. -/
def Search.start (g : Graph) (visited : List String) (name : String) : Search :=
  { visited := name :: visited, frames := [⟨name, g.dependencies name⟩] }

/-- Runs a search to its end: a cycle, or the names met. -/
def Search.run (g : Graph) : (fuel : Nat) → Search → Except (List String) (List String)
  | 0, s => .ok s.visited
  | fuel + 1, s =>
    match s.step g with
    | .next s' => run g fuel s'
    | .cycle names => .error names
    | .done visited => .ok visited

/-- Enough steps for a search: each name is entered and left once and each dependency followed
once. -/
def searchFuel (g : Graph) : Nat :=
  2 * g.nodes.length + g.edges.length + 1

/-- Searches from each of the names that was not met before. -/
def searchFrom (g : Graph) : (visited : List String) → List String → Option (List String)
  | _, [] => none
  | visited, name :: names =>
    if name ∈ visited then searchFrom g visited names
    else
      match (Search.start g visited name).run g g.searchFuel with
      | .error cycle => some cycle
      | .ok visited' => searchFrom g visited' names

/-- The first cycle that a depth-first search meets, from the repeated name back to itself. -/
def findCycle (g : Graph) : Option (List String) :=
  g.searchFrom [] g.nodes

/-- Whether some name depends on itself. -/
def hasCycle (g : Graph) : Bool :=
  g.findCycle.isSome

/-! ## Order -/

/-- A depth-first walk along dependents. -/
structure Walk where
  /-- The names met so far. -/
  discovered : List String
  /-- The names left for good, the last first. -/
  finished : List String
  /-- The names to look at, the next one first; a name may stand here several times. -/
  stack : List String
deriving Repr

/-- The walk that has met nothing. -/
def Walk.empty : Walk := ⟨[], [], []⟩

/-- One step: a name that is met for the first time stays, under those of its dependents that were
not met before; any other is taken off, and is finished if it was not. -/
def Walk.step (g : Graph) (w : Walk) : Option Walk :=
  match w.stack with
  | [] => none
  | name :: rest =>
    if name ∈ w.discovered then
      some { w with
        stack := rest
        finished := if name ∈ w.finished then w.finished else name :: w.finished }
    else
      let discovered := name :: w.discovered
      some { w with
        discovered := discovered
        stack := (g.recordedDependents name).filter (· ∉ discovered) ++ w.stack }

/-- Walks until nothing is left to look at. -/
def Walk.run (g : Graph) : (fuel : Nat) → Walk → Walk
  | 0, w => w
  | fuel + 1, w =>
    match w.step g with
    | none => w
    | some w' => run g fuel w'

/-- Enough steps for a walk from one name: each name is met once, each dependency puts one name on
the stack, and what stands there is taken off once. -/
def walkFuel (g : Graph) : Nat :=
  g.nodes.length + g.edges.length + 1

/-- Walks on from a name, unless it was met before. -/
def Walk.visit (g : Graph) (w : Walk) (name : String) : Walk :=
  if name ∈ w.discovered then w
  else Walk.run g g.walkFuel { w with stack := name :: w.stack }

/-- The names in the order in which a walk from each of them leaves them, the last first. -/
def finishOrder (g : Graph) : List String :=
  (g.nodes.foldl (Walk.visit g) Walk.empty).finished

/-- The first dependency that does not stand before the name that has it. -/
def misplaced? (g : Graph) : (before : List String) → List String → Option String
  | _, [] => none
  | before, name :: names =>
    match (g.dependencies name).find? (· ∉ before) with
    | some target => some target
    | none => misplaced? g (name :: before) names

/-- The names with each one after those it depends on, or a name that stands in the way of that. -/
def sorted (g : Graph) : Except String (List String) :=
  match g.misplaced? [] g.finishOrder with
  | some name => .error name
  | none => .ok g.finishOrder

/-- The names with each one after those it depends on; a cycle is an error. -/
def order (g : Graph) : Except Error (List String) :=
  match g.findCycle with
  | some cycle => .error (.circular cycle)
  | none =>
    match g.sorted with
    | .error name => .error (.circular [name])
    | .ok names => .ok names

end Graph

end DesignTokens
