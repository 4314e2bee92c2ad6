import DesignTokens.Proofs.CycleSearch
import Mathlib.Data.Finset.Basic
import Mathlib.Data.Finset.Dedup

/-!
# The loops of the search for a cycle

The search for a cycle can be run as two loops over five collections that are changed one by one
(`Loops`): the names to start from, the names met, the names on the stack, the way to the current
name and the frames with the number of dependencies read at each. A dependency that is on the stack
closes a cycle, which is cut out of the way; if it were not on the way, the loops would be lost.

`Turn` lists what one iteration does. It keeps the collections in step (`Sound.next`), so the loops
are never lost (`Sound.ne_lost`), and it uses up a name, a dependency or a frame (`measure_lt`), so
they end. Iteration by iteration they do what `Search.step` does (`Mirrors.next`), so they end with
the answer of `findCycle` (`search_loops_end`).
-/

namespace DesignTokens

open Relation

namespace Graph

/-- The state of the loops between two iterations. -/
structure Loops where
  /-- The names that a search is still to be started from. -/
  starts : List String
  /-- The names met so far. -/
  visited : Finset String
  /-- The names that were entered and not left. -/
  onStack : Finset String
  /-- The way from the start to the current name. -/
  path : List String
  /-- The names on the way, each with the number of its dependencies that were read. -/
  frames : List (String × Nat)

namespace Loops

/-- What an iteration leads to. -/
inductive Outcome where
  /-- The loops go on. -/
  | next (s : Loops)
  /-- A name was met that is on the way already. -/
  | cycle (names : List String)
  /-- No name is left to start from. -/
  | acyclic
  /-- A name is on the stack and not on the way. -/
  | lost (name : String)

/-- The outcome for an answer. -/
def Outcome.ofAnswer : Option (List String) → Outcome
  | some names => .cycle names
  | none => .acyclic

/-- One iteration: takes the next name to start from if there are no frames, and otherwise reads the
next dependency at the last frame or goes back from it. -/
def iterate (g : Graph) (s : Loops) : Outcome :=
  match s.frames.getLast? with
  | none =>
    match s.starts with
    | [] => .acyclic
    | start :: starts =>
      if start ∈ s.visited then .next { s with starts := starts }
      else
        .next
          { starts := starts
            visited := insert start s.visited
            onStack := insert start s.onStack
            path := [start]
            frames := [(start, 0)] }
  | some (name, read) =>
    match (g.dependencies name)[read]? with
    | none =>
      .next
        { s with
          onStack := s.onStack.erase name
          path := s.path.dropLast
          frames := s.frames.dropLast }
    | some target =>
      let frames := s.frames.dropLast ++ [(name, read + 1)]
      if target ∈ s.onStack then
        match s.path.idxOf? target with
        | none => .lost target
        | some i => .cycle (s.path.drop i ++ [target])
      else if target ∈ s.visited then .next { s with frames := frames }
      else
        .next
          { s with
            visited := insert target s.visited
            onStack := insert target s.onStack
            path := s.path ++ [target]
            frames := frames ++ [(target, 0)] }

/-- The loops before the first iteration. -/
def start (g : Graph) : Loops := ⟨g.nodes, ∅, ∅, [], []⟩

/-- The loops after `n` iterations, or how they ended before. -/
def runFor (g : Graph) : (n : Nat) → Loops → Outcome
  | 0, s => .next s
  | n + 1, s =>
    match s.iterate g with
    | .next s' => runFor g n s'
    | outcome => outcome

/-! ## What one iteration does -/

/-- An iteration by its outcome. -/
inductive Turn (g : Graph) (s : Loops) : Outcome → Prop
  | finish (hframes : s.frames = []) (hstarts : s.starts = []) : Turn g s .acyclic
  | pass {start : String} {starts : List String} (hframes : s.frames = [])
      (hstarts : s.starts = start :: starts) (hmet : start ∈ s.visited) :
      Turn g s (.next { s with starts := starts })
  | begin {start : String} {starts : List String} (hframes : s.frames = [])
      (hstarts : s.starts = start :: starts) (hnew : start ∉ s.visited) :
      Turn g s
        (.next ⟨starts, insert start s.visited, insert start s.onStack, [start], [(start, 0)]⟩)
  | leave {front : List (String × Nat)} {name : String} {read : Nat}
      (hframes : s.frames = front ++ [(name, read)])
      (hend : (g.dependencies name)[read]? = none) :
      Turn g s
        (.next ⟨s.starts, s.visited, s.onStack.erase name, s.path.dropLast, front⟩)
  | cycle {front : List (String × Nat)} {name target : String} {read i : Nat}
      (hframes : s.frames = front ++ [(name, read)])
      (hread : (g.dependencies name)[read]? = some target) (hstack : target ∈ s.onStack)
      (hplace : s.path.idxOf? target = some i) :
      Turn g s (.cycle (s.path.drop i ++ [target]))
  | lost {front : List (String × Nat)} {name target : String} {read : Nat}
      (hframes : s.frames = front ++ [(name, read)])
      (hread : (g.dependencies name)[read]? = some target) (hstack : target ∈ s.onStack)
      (hplace : s.path.idxOf? target = none) :
      Turn g s (.lost target)
  | skip {front : List (String × Nat)} {name target : String} {read : Nat}
      (hframes : s.frames = front ++ [(name, read)])
      (hread : (g.dependencies name)[read]? = some target) (hstack : target ∉ s.onStack)
      (hmet : target ∈ s.visited) :
      Turn g s (.next { s with frames := front ++ [(name, read + 1)] })
  | enter {front : List (String × Nat)} {name target : String} {read : Nat}
      (hframes : s.frames = front ++ [(name, read)])
      (hread : (g.dependencies name)[read]? = some target) (hstack : target ∉ s.onStack)
      (hnew : target ∉ s.visited) :
      Turn g s
        (.next ⟨s.starts, insert target s.visited, insert target s.onStack, s.path ++ [target],
          front ++ [(name, read + 1)] ++ [(target, 0)]⟩)

/-- An iteration is a turn. -/
lemma turn_iterate (g : Graph) (s : Loops) : Turn g s (s.iterate g) := by
  rcases List.eq_nil_or_concat s.frames with hframes | ⟨front, ⟨name, read⟩, hframes⟩
  · cases hstarts : s.starts with
    | nil => simpa [iterate, hframes, hstarts] using Turn.finish hframes hstarts
    | cons start starts =>
      by_cases hmet : start ∈ s.visited
      · simpa [iterate, hframes, hstarts, hmet] using Turn.pass hframes hstarts hmet
      · simpa [iterate, hframes, hstarts, hmet] using Turn.begin hframes hstarts hmet
  · rw [List.concat_eq_append] at hframes
    cases hread : (g.dependencies name)[read]? with
    | none => simpa [iterate, hframes, hread] using Turn.leave hframes hread
    | some target =>
      by_cases hstack : target ∈ s.onStack
      · cases hplace : s.path.idxOf? target with
        | none =>
          simpa [iterate, hframes, hread, hstack, hplace] using
            Turn.lost hframes hread hstack hplace
        | some i =>
          simpa [iterate, hframes, hread, hstack, hplace] using
            Turn.cycle hframes hread hstack hplace
      · by_cases hmet : target ∈ s.visited
        · simpa [iterate, hframes, hread, hstack, hmet] using
            Turn.skip hframes hread hstack hmet
        · simpa [iterate, hframes, hread, hstack, hmet] using
            Turn.enter hframes hread hstack hmet

lemma turn_of_iterate {g : Graph} {s : Loops} {outcome : Outcome} (h : s.iterate g = outcome) :
    Turn g s outcome :=
  h ▸ turn_iterate g s

/-! ## What each iteration keeps -/

/-- The collections are in step. -/
structure Sound (g : Graph) (s : Loops) : Prop where
  starts : ∀ n ∈ s.starts, n ∈ g.nodes
  /-- The way is that of the frames. -/
  path : s.path = s.frames.map Prod.fst
  /-- The names on the stack are those on the way. -/
  onStack : s.onStack = s.path.toFinset
  nodup : s.path.Nodup
  visited : ∀ n ∈ s.path, n ∈ s.visited

/-- The search starts sound. -/
lemma sound_start (g : Graph) : Sound g (start g) :=
  ⟨fun _ hn => hn, rfl, rfl, List.nodup_nil, by simp [start]⟩

/-- Without frames nothing is on the stack. -/
lemma Sound.onStack_eq_empty {g : Graph} {s : Loops} (h : Sound g s) (hframes : s.frames = []) :
    s.onStack = ∅ := by
  rw [h.onStack, h.path, hframes]
  rfl

/-- A turn keeps the state sound. -/
lemma Sound.next {g : Graph} {s s' : Loops} (h : Sound g s) (hturn : Turn g s (.next s')) :
    Sound g s' := by
  cases hturn with
  | pass hframes hstarts hmet =>
    refine ⟨fun n hn => h.starts n ?_, h.path, h.onStack, h.nodup, h.visited⟩
    exact hstarts ▸ List.mem_cons_of_mem _ hn
  | begin hframes hstarts hnew =>
    refine ⟨fun n hn => h.starts n ?_, rfl, ?_, List.nodup_singleton _, by simp⟩
    · exact hstarts ▸ List.mem_cons_of_mem _ hn
    · rw [h.onStack_eq_empty hframes]
      rfl
  | @leave front name read hframes hend =>
    have hpath : s.path = front.map Prod.fst ++ [name] := by
      rw [h.path, hframes, List.map_append, List.map_singleton]
    have hnodup := h.nodup
    rw [hpath, List.nodup_append] at hnodup
    have hname : name ∉ front.map Prod.fst := fun hmem =>
      hnodup.2.2 name hmem name (List.mem_singleton_self name) rfl
    have hfront : s.path.dropLast = front.map Prod.fst := by
      rw [hpath, List.dropLast_concat]
    refine ⟨h.starts, hfront, ?_, hfront ▸ hnodup.1, fun n hn => ?_⟩
    · -- The name that is left stands only at the end of the way.
      show s.onStack.erase name = s.path.dropLast.toFinset
      rw [hfront, h.onStack, hpath]
      ext n
      by_cases hn : n = name
      · simpa [hn] using hname
      · simp [hn]
    · exact h.visited n (List.dropLast_sublist _ |>.subset hn)
  | skip hframes hread hstack hmet =>
    refine ⟨h.starts, ?_, h.onStack, h.nodup, h.visited⟩
    rw [h.path, hframes, List.map_append, List.map_append]
    rfl
  | @enter front name target read hframes hread hstack hnew =>
    have htarget : target ∉ s.path := by
      rwa [h.onStack, List.mem_toFinset] at hstack
    refine ⟨h.starts, ?_, ?_, ?_, ?_⟩
    · show s.path ++ [target] = _
      rw [h.path, hframes]
      simp
    · show insert target s.onStack = _
      rw [h.onStack]
      ext n
      rw [Finset.mem_insert, List.mem_toFinset, List.mem_toFinset, List.mem_append,
        List.mem_singleton, or_comm]
    · rw [← List.concat_eq_append]
      exact h.nodup.concat htarget
    · intro n hn
      rcases List.mem_append.mp hn with hn | hn
      · exact Finset.mem_insert_of_mem (h.visited n hn)
      · exact List.mem_singleton.mp hn ▸ Finset.mem_insert_self _ _

/-- What is on the stack is on the way. -/
lemma Sound.ne_lost {g : Graph} {s : Loops} (h : Sound g s) (name : String) :
    s.iterate g ≠ .lost name := by
  intro hlost
  cases turn_of_iterate hlost with
  | lost hframes hread hstack hplace =>
    rw [h.onStack, List.mem_toFinset] at hstack
    exact List.idxOf?_eq_none_iff.mp hplace hstack

/-! ## The end of the loops -/

/-- The number of names that are not met, and of their dependencies. -/
def unvisited (g : Graph) (visited : Finset String) : Nat :=
  (g.nodes.filter (· ∉ visited)).length + (g.edges.filter fun e => e.dependent ∉ visited).length

/-- A bound on the iterations that are left. -/
def measure (g : Graph) (s : Loops) : Nat :=
  s.starts.length + unvisited g s.visited + s.frames.length +
    (s.frames.flatMap fun f => (g.dependencies f.1).drop f.2).length

/-- Meeting a name pays for the name and its dependencies. -/
lemma unvisited_insert {g : Graph} {name : String} {visited : Finset String} (hmem : name ∈ g.nodes)
    (hnew : name ∉ visited) :
    unvisited g (insert name visited) + (g.dependencies name).length + 1 ≤ unvisited g visited := by
  have hcons := unmet_cons Dependency.dependent hmem (mt Finset.mem_toList.mp hnew)
  simpa [unmet, unvisited, dependencies] using hcons

lemma drop_of_getElem? {l : List String} {i : Nat} {a : String} (h : l[i]? = some a) :
    l.drop i = a :: l.drop (i + 1) := by
  obtain ⟨hi, rfl⟩ := List.getElem?_eq_some_iff.mp h
  exact List.drop_eq_getElem_cons hi

/-- A target that is read is one that the name depends on. -/
lemma dependsOn_of_read {g : Graph} {name target : String} {read : Nat}
    (hread : (g.dependencies name)[read]? = some target) : g.DependsOn name target :=
  mem_dependencies.mp (List.mem_of_getElem? hread)

/-- Each iteration uses something up. -/
lemma measure_lt {g : Graph} {s s' : Loops} (h : Sound g s) (hturn : Turn g s (.next s')) :
    s'.measure g < s.measure g := by
  cases hturn with
  | pass hframes hstarts hmet => simp [measure, hstarts]
  | begin hframes hstarts hnew =>
    have hunvisited := unvisited_insert (h.starts _ (hstarts ▸ List.mem_cons_self ..)) hnew
    simp only [measure, hstarts, hframes, List.length_cons, List.flatMap_cons, List.drop_zero,
      List.length_append, List.flatMap_nil, List.length_nil]
    omega
  | leave hframes hend =>
    simp only [measure, hframes, List.length_append, List.flatMap_append, List.length_cons]
    omega
  | skip hframes hread hstack hmet =>
    simp only [measure, hframes, List.length_append, List.flatMap_append, List.flatMap_cons,
      drop_of_getElem? hread, List.length_cons]
    omega
  | enter hframes hread hstack hnew =>
    -- The new frame and what is unread there are paid for by the name that is met.
    have hunvisited := unvisited_insert (dependsOn_of_read hread).target_mem hnew
    simp only [measure, hframes, List.length_append, List.flatMap_append, List.flatMap_cons,
      drop_of_getElem? hread, List.length_cons, List.drop_zero, List.flatMap_nil, List.length_nil]
    omega

/-- At the start the measure is at most twice the nodes and once the edges. -/
lemma measure_start_le (g : Graph) : (start g).measure g ≤ 2 * g.size + g.edges.length := by
  have hunvisited : unvisited g ∅ ≤ g.nodes.length + g.edges.length :=
    Nat.add_le_add (List.length_filter_le _ _) (List.length_filter_le _ _)
  simp only [measure, start, size, List.length_nil, List.flatMap_nil]
  omega

/-- One iteration after the other. -/
def Leads (g : Graph) : Loops → Loops → Prop :=
  ReflTransGen fun s s' => s.iterate g = .next s'

/-- Every state on the way is sound. -/
lemma Sound.leads {g : Graph} {s s' : Loops} (h : Sound g s) (hleads : Leads g s s') :
    Sound g s' := by
  induction hleads with
  | refl => exact h
  | tail _ hstep ih => exact ih.next (turn_of_iterate hstep)

/-- After any number of iterations the state is sound, and no name was lost. -/
lemma Sound.runFor {g : Graph} {s : Loops} (h : Sound g s) (n : Nat) :
    (∀ s', s.runFor g n = .next s' → Sound g s') ∧ ∀ name, s.runFor g n ≠ .lost name := by
  induction n generalizing s with
  | zero =>
    refine ⟨fun s' hs' => ?_, fun name hname => ?_⟩
    · cases hs'
      exact h
    · cases hname
  | succ n ih =>
    cases hstep : s.iterate g with
    | next s' =>
      simp only [Loops.runFor, hstep]
      exact ih (h.next (turn_of_iterate hstep))
    | cycle names => simp [Loops.runFor, hstep]
    | acyclic => simp [Loops.runFor, hstep]
    | lost name => exact absurd hstep (h.ne_lost name)

/-- The loops end where their iterations lead to. -/
lemma runFor_of_leads {g : Graph} {s s' : Loops} (hleads : Leads g s s') (h : Sound g s)
    {answer : Option (List String)} (hend : s'.iterate g = .ofAnswer answer) {n : Nat}
    (hn : s.measure g < n) : s.runFor g n = .ofAnswer answer := by
  induction hleads using ReflTransGen.head_induction_on generalizing n with
  | refl =>
    obtain ⟨n, rfl⟩ := Nat.exists_eq_add_one_of_ne_zero (Nat.ne_zero_of_lt hn)
    cases answer <;> simp only [runFor, hend, Outcome.ofAnswer]
  | head hstep _ ih =>
    obtain ⟨n, rfl⟩ := Nat.exists_eq_add_one_of_ne_zero (Nat.ne_zero_of_lt hn)
    have hturn := turn_of_iterate hstep
    have hlt := measure_lt h hturn
    simp only [runFor, hstep]
    exact ih (h.next hturn) (by omega)

/-! ## The same search -/

/-- The frames as the search has them: the last first, with the dependencies that are unread. -/
def pendingFrames (g : Graph) (frames : List (String × Nat)) : List Frame :=
  (frames.map fun f => ⟨f.1, (g.dependencies f.1).drop f.2⟩).reverse

/-- The frame on top has what is not read yet of the dependencies of its name. -/
lemma pendingFrames_concat (g : Graph) (front : List (String × Nat)) (name : String) (read : Nat) :
    pendingFrames g (front ++ [(name, read)]) =
      ⟨name, (g.dependencies name).drop read⟩ :: pendingFrames g front := by
  rw [pendingFrames, List.map_append, List.reverse_append]
  rfl

lemma pendingFrames_eq_nil {g : Graph} {frames : List (String × Nat)} :
    pendingFrames g frames = [] ↔ frames = [] := by
  rw [pendingFrames, List.reverse_eq_nil_iff, List.map_eq_nil_iff]

/-- The loops stand where a search along dependencies stands. -/
structure Mirrors (g : Graph) (s : Loops) (q : Search) : Prop where
  visited : ∀ n, n ∈ s.visited ↔ n ∈ q.visited
  frames : q.frames = pendingFrames g s.frames

namespace Mirrors

variable {g : Graph} {s s' : Loops} {q : Search}

/-- Both searches are on the same path. -/
lemma path_eq (h : Mirrors g s q) (hs : Sound g s) : q.path = s.path := by
  rw [Search.path, h.frames, pendingFrames, hs.path, List.map_reverse, List.reverse_reverse,
    List.map_map]
  rfl

/-- What is on the path of one search is marked as on the stack in the other. -/
lemma mem_path_iff (h : Mirrors g s q) (hs : Sound g s) (n : String) :
    n ∈ q.path ↔ n ∈ s.onStack := by
  rw [h.path_eq hs, hs.onStack, List.mem_toFinset]

/-- The dependency that is read next is the first that is pending. -/
lemma frames_of_read (h : Mirrors g s q) {front : List (String × Nat)} {name target : String}
    {read : Nat} (hframes : s.frames = front ++ [(name, read)])
    (hread : (g.dependencies name)[read]? = some target) :
    q.frames =
      ⟨name, target :: (g.dependencies name).drop (read + 1)⟩ :: pendingFrames g front := by
  rw [h.frames, hframes, pendingFrames_concat, drop_of_getElem? hread]

/-- While there are frames, an iteration is a step of the search. -/
lemma next (h : Mirrors g s q) (hs : Sound g s) (hne : s.frames ≠ [])
    (hturn : Turn g s (.next s')) :
    ∃ q', q.step g = .next q' ∧ Mirrors g s' q' ∧ s'.starts = s.starts := by
  cases hturn with
  | pass hframes => exact absurd hframes hne
  | begin hframes => exact absurd hframes hne
  | @leave front name read hframes hend =>
    have hfirst : q.frames = ⟨name, []⟩ :: pendingFrames g front := by
      rw [h.frames, hframes, pendingFrames_concat,
        List.drop_eq_nil_iff.mpr (List.getElem?_eq_none_iff.mp hend)]
    refine ⟨⟨q.visited, pendingFrames g front⟩, ?_, ⟨h.visited, rfl⟩, rfl⟩
    simp only [Search.step, hfirst]
  | @skip front name target read hframes hread hstack hmet =>
    have hfirst := h.frames_of_read hframes hread
    have hpath : target ∉ q.path := mt (h.mem_path_iff hs target).mp hstack
    refine ⟨⟨q.visited, pendingFrames g (front ++ [(name, read + 1)])⟩, ?_, ⟨h.visited, rfl⟩, rfl⟩
    simp only [Search.step, hfirst, if_neg hpath, if_pos ((h.visited target).mp hmet),
      pendingFrames_concat]
  | @enter front name target read hframes hread hstack hnew =>
    have hfirst := h.frames_of_read hframes hread
    have hpath : target ∉ q.path := mt (h.mem_path_iff hs target).mp hstack
    refine ⟨⟨target :: q.visited, pendingFrames g (front ++ [(name, read + 1)] ++ [(target, 0)])⟩,
      ?_, ⟨fun n => ?_, rfl⟩, rfl⟩
    · simp only [Search.step, hfirst, if_neg hpath, if_neg (mt (h.visited target).mpr hnew),
        pendingFrames_concat, List.drop_zero]
    · rw [Finset.mem_insert, List.mem_cons, h.visited]

/-- Both find the same cycle. -/
lemma cycle (h : Mirrors g s q) (hs : Sound g s) {names : List String}
    (hturn : Turn g s (.cycle names)) : q.step g = .cycle names := by
  cases hturn with
  | @cycle front name target read i hframes hread hstack hplace =>
    have hpath : target ∈ q.path := (h.mem_path_iff hs target).mpr hstack
    -- What stands from the place of the name on is what is left when all others are dropped.
    have hcut : q.path.dropWhile (· ≠ target) = s.path.drop i := by
      rw [h.path_eq hs, List.dropWhile_eq_drop_findIdx_not]
      congr 1
      rw [← (List.findIdx?_eq_some_iff_findIdx_eq.mp hplace).2]
      congr 1
      funext n
      by_cases hn : n = target <;> simp [hn]
    simp only [Search.step, h.frames_of_read hframes hread, if_pos hpath, hcut]

end Mirrors

variable {g : Graph}

/-- The loops go on as the search runs: to the cycle it finds, or until there are no frames, with
the same names met. -/
lemma exists_leads_run {fuel : Nat} {s : Loops} {q : Search} (hs : Sound g s)
    (hq : Search.Inv g q) (h : Mirrors g s q) (hfuel : q.measure g ≤ fuel) :
    (∃ names s', q.run g fuel = .error names ∧ Leads g s s' ∧ s'.iterate g = .cycle names) ∨
      ∃ visited s', q.run g fuel = .ok visited ∧ Leads g s s' ∧ s'.frames = [] ∧
        s'.starts = s.starts ∧ ∀ n, n ∈ s'.visited ↔ n ∈ visited := by
  induction fuel generalizing s q with
  | zero =>
    have hframes : q.frames = [] := by
      by_contra hne
      obtain ⟨f, frames, hf⟩ := List.exists_cons_of_ne_nil hne
      simp [Search.measure, hf] at hfuel
    rw [h.frames, pendingFrames_eq_nil] at hframes
    exact .inr ⟨q.visited, s, rfl, .refl, hframes, rfl, h.visited⟩
  | succ fuel ih =>
    by_cases hne : s.frames = []
    · have hframes : q.frames = [] := by rw [h.frames, hne]; rfl
      refine .inr ⟨q.visited, s, ?_, .refl, hne, rfl, h.visited⟩
      simp only [Search.run, Search.step, hframes]
    · cases hstep : s.iterate g with
      | next s' =>
        have hturn := turn_of_iterate hstep
        obtain ⟨q', hq', hmirrors, hstarts⟩ := h.next hs hne hturn
        have hlt := Search.measure_lt hq hq'
        have hrun : q.run g (fuel + 1) = q'.run g fuel := by simp only [Search.run, hq']
        rw [hrun]
        rcases ih (hs.next hturn) (hq.next hq') hmirrors (by omega) with
          ⟨names, s'', hnames, hleads, hend⟩ | ⟨visited, s'', hvisited, hleads, hend, hrest, hmet⟩
        · exact .inl ⟨names, s'', hnames, .head hstep hleads, hend⟩
        · exact .inr ⟨visited, s'', hvisited, .head hstep hleads, hend, hrest.trans hstarts, hmet⟩
      | cycle names =>
        refine .inl ⟨names, s, ?_, .refl, hstep⟩
        simp only [Search.run, h.cycle hs (turn_of_iterate hstep)]
      | acyclic =>
        cases turn_of_iterate hstep with
        | finish hframes => exact absurd hframes hne
      | lost name => exact absurd hstep (hs.ne_lost name)

/-- From the names that are left the loops find what the searches from these names find. -/
lemma exists_leads_searchFrom {names visited : List String} {s : Loops} (hs : Sound g s)
    (hframes : s.frames = []) (hstarts : s.starts = names)
    (hvisited : ∀ n, n ∈ s.visited ↔ n ∈ visited) (hsettled : Search.Settled g visited) :
    ∃ s', Leads g s s' ∧ s'.iterate g = .ofAnswer (g.searchFrom visited names) := by
  induction names generalizing visited s with
  | nil =>
    refine ⟨s, .refl, ?_⟩
    simp only [iterate, hframes, hstarts, List.getLast?_nil, searchFrom, Outcome.ofAnswer]
  | cons name names ih =>
    have hname : name ∈ g.nodes := hs.starts name (hstarts ▸ List.mem_cons_self ..)
    rw [searchFrom]
    by_cases hmet : name ∈ visited
    · have hstep : s.iterate g = .next { s with starts := names } := by
        simp only [iterate, hframes, hstarts, List.getLast?_nil, if_pos ((hvisited name).mpr hmet)]
      obtain ⟨s', hleads, hend⟩ :=
        ih (hs.next (turn_of_iterate hstep)) hframes rfl hvisited hsettled
      rw [if_pos hmet]
      exact ⟨s', .head hstep hleads, hend⟩
    · have hstep : s.iterate g = .next ⟨names, insert name s.visited, insert name s.onStack, [name],
          [(name, 0)]⟩ := by
        simp only [iterate, hframes, hstarts, List.getLast?_nil,
          if_neg (mt (hvisited name).mp hmet)]
      have hmirrors : Mirrors g ⟨names, insert name s.visited, insert name s.onStack, [name],
          [(name, 0)]⟩ (Search.start g visited name) :=
        ⟨fun n => by rw [Finset.mem_insert, hvisited]; exact List.mem_cons.symm, rfl⟩
      have hinv := hsettled.inv_start hmet
      have hfuel := Search.measure_start_le hname hmet
      rw [if_neg hmet]
      rcases exists_leads_run (hs.next (turn_of_iterate hstep)) hinv hmirrors hfuel with
        ⟨found, s', hrun, hleads, hend⟩ | ⟨visited', s', hrun, hleads, hend, hrest, hmet'⟩
      · rw [hrun]
        exact ⟨s', .head hstep hleads, hend⟩
      · have hsound := (hs.next (turn_of_iterate hstep)).leads hleads
        have hsettled' := (Search.run_ok hinv hfuel hrun).1
        obtain ⟨s'', hleads', hend'⟩ := ih hsound hend hrest hmet' hsettled'
        rw [hrun]
        exact ⟨s'', .head hstep (hleads.trans hleads'), hend'⟩

end Loops

/-- Whatever edits a graph was built by: after any number of iterations the way is that of the
frames, no name is on it twice and its names are those on the stack, so there are none when the next
name is taken to start from; the loops are never lost; and after at most twice as many iterations as
there are names, and one for each dependency and the last, they have ended with the answer of the
search. -/
theorem search_loops_end (edits : List Edit) :
    (∀ n s, (Loops.start (build edits)).runFor (build edits) n = .next s →
      s.path = s.frames.map Prod.fst ∧ s.path.Nodup ∧ s.onStack = s.path.toFinset ∧
      (s.frames = [] → s.onStack = ∅)) ∧
    (∀ n name, (Loops.start (build edits)).runFor (build edits) n ≠ .lost name) ∧
    ∀ n, 2 * (build edits).size + (build edits).edges.length < n →
      (Loops.start (build edits)).runFor (build edits) n = .ofAnswer (build edits).findCycle := by
  have hsound := Loops.sound_start (build edits)
  refine ⟨fun n s hs => ?_, fun n => (hsound.runFor n).2, fun n hn => ?_⟩
  · have hs := (hsound.runFor n).1 s hs
    exact ⟨hs.path, hs.nodup, hs.onStack, hs.onStack_eq_empty⟩
  · obtain ⟨s, hleads, hend⟩ := Loops.exists_leads_searchFrom hsound rfl rfl (by simp [Loops.start])
      (build edits).settled_nil
    exact Loops.runFor_of_leads hleads hsound hend
      (Nat.lt_of_le_of_lt (Loops.measure_start_le _) hn)

/-- The loops after three iterations, with two names that depend on each other on the way. -/
def loopState : Loops where
  starts := ["a", "b"]
  visited := {"b", "a", "start"}
  onStack := {"b", "a", "start"}
  path := ["start", "a", "b"]
  frames := [("start", 1), ("a", 1), ("b", 0)]

theorem search_loops_end_loop :
    (Loops.start (build loopEdits)).runFor (build loopEdits) 3 = .next loopState ∧
    (loopState.path = loopState.frames.map Prod.fst ∧ loopState.path.Nodup ∧
      loopState.onStack = loopState.path.toFinset) ∧
    (Loops.start (build loopEdits)).runFor (build loopEdits) 0 =
      .next (Loops.start (build loopEdits)) ∧
    (Loops.start (build loopEdits)).onStack = ∅ ∧
    2 * (build loopEdits).size + (build loopEdits).edges.length < 10 ∧
    (Loops.start (build loopEdits)).runFor (build loopEdits) 10 = .cycle ["a", "b", "a"] := by
  have hthree : (Loops.start (build loopEdits)).runFor (build loopEdits) 3 = .next loopState :=
    rfl
  have hbound : 2 * (build loopEdits).size + (build loopEdits).edges.length < 10 := by
    decide +kernel
  have hfound : (build loopEdits).findCycle = some ["a", "b", "a"] := by decide +kernel
  obtain ⟨hstep, -, hend⟩ := search_loops_end loopEdits
  obtain ⟨hpath, hnodup, hstack, -⟩ := hstep 3 loopState hthree
  obtain ⟨-, -, -, hempty⟩ := hstep 0 _ rfl
  refine ⟨hthree, ⟨hpath, hnodup, hstack⟩, rfl, hempty rfl, hbound, ?_⟩
  rw [hend 10 hbound, hfound]
  rfl

end Graph

end DesignTokens
