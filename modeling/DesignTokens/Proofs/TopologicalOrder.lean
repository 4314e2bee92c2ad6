import DesignTokens.Proofs.CycleSearch

/-!
# The topological order of a graph

The walk behind `Graph.order` keeps its names on a stack, where a name may stand several times, and
puts a name in front of the list of finished ones when it is taken off after it was met. In a graph
without cycles all dependents of such a name are finished by then: one that was met and is not
finished stands further down on the stack, and whatever stands above the topmost place of an
unfinished name depends on that name (`Walk.Inv.awaited`). So the list of finished names puts each
name before its dependents.
-/

namespace DesignTokens

open Relation

namespace Graph

/-- The names of a graph in a list, each once and after all that it depends on. -/
structure IsOrder (g : Graph) (names : List String) : Prop where
  nodup : names.Nodup
  mem_iff : ∀ n, n ∈ names ↔ n ∈ g.nodes
  targetsFirst : TargetsFirst g.DependsOn [] names

namespace Walk

/-! ## What one step does -/

/-- The names that stand above the topmost place of a name on the stack. -/
def above (w : Walk) (n : String) : List String :=
  w.stack.takeWhile (· ≠ n)

/-- The three things that a step does: it takes off a name that is finished, it finishes a name that
was met, or it meets a name. -/
lemma step_some {g : Graph} {w w' : Walk} (h : w.step g = some w') :
    ∃ n rest, w.stack = n :: rest ∧
      ((n ∈ w.discovered ∧ n ∈ w.finished ∧ w' = ⟨w.discovered, w.finished, rest⟩) ∨
       (n ∈ w.discovered ∧ n ∉ w.finished ∧ w' = ⟨w.discovered, n :: w.finished, rest⟩) ∨
       (n ∉ w.discovered ∧ w' = ⟨n :: w.discovered, w.finished,
          (g.recordedDependents n).filter (· ∉ n :: w.discovered) ++ n :: rest⟩)) := by
  unfold step at h
  split at h
  · cases h
  · next n rest hstack =>
    refine ⟨n, rest, hstack, ?_⟩
    split_ifs at h with hdisc hfin
    · exact .inl ⟨hdisc, hfin, (Option.some.inj h).symm⟩
    · exact .inr (.inl ⟨hdisc, hfin, (Option.some.inj h).symm⟩)
    · refine .inr (.inr ⟨hdisc, ?_⟩)
      rw [← Option.some.inj h, hstack]

lemma step_none {g : Graph} {w : Walk} (h : w.step g = none) : w.stack = [] := by
  unfold step at h
  split at h
  · assumption
  · split_ifs at h

/-! ## What each step keeps -/

/-- The state of a walk between two steps. -/
structure Inv (g : Graph) (w : Walk) : Prop where
  nodup : w.finished.Nodup
  /-- A finished name was met. -/
  finished_met : w.finished ⊆ w.discovered
  stack_nodes : w.stack ⊆ g.nodes
  discovered_nodes : w.discovered ⊆ g.nodes
  /-- A name that was met and is not finished is still on the stack. -/
  unfinished : ∀ n ∈ w.discovered, n ∉ w.finished → n ∈ w.stack
  /-- The dependents of a finished name are finished. -/
  closed : ∀ n ∈ w.finished, ∀ d, g.DependsOn d n → d ∈ w.finished
  /-- No finished name depends on a later one. -/
  ordered : w.finished.Pairwise fun a b => ¬ g.DependsOn a b
  /-- The dependents of a name that was met and is not finished were met or stand above it. -/
  awaited : ∀ n ∈ w.discovered, n ∉ w.finished →
    ∀ d, g.DependsOn d n → d ∈ w.discovered ∨ d ∈ w.above n
  /-- What stands above such a name depends on it. -/
  above_depends : ∀ n ∈ w.discovered, n ∉ w.finished →
    ∀ m ∈ w.above n, TransGen g.DependsOn m n

lemma above_cons_of_ne {discovered finished rest : List String} {n m : String} (h : n ≠ m) :
    above ⟨discovered, finished, n :: rest⟩ m = n :: above ⟨discovered, finished, rest⟩ m := by
  simp [above, h]

/-- Taking off a finished name changes nothing for the unfinished ones. -/
lemma Inv.drop {g : Graph} {discovered finished rest : List String} {n : String}
    (h : Inv g ⟨discovered, finished, n :: rest⟩) (hdisc : n ∈ discovered) (hfin : n ∈ finished) :
    Inv g ⟨discovered, finished, rest⟩ := by
  -- An unfinished name is not the one on top, so its topmost place stays.
  have hne : ∀ m, m ∉ finished → n ≠ m := by
    rintro m hm rfl
    exact hm hfin
  refine ⟨h.nodup, h.finished_met, fun m hm => h.stack_nodes (List.mem_cons_of_mem _ hm),
    h.discovered_nodes, ?_, h.closed, h.ordered, ?_, ?_⟩
  · intro m hm hmfin
    exact (List.mem_cons.mp (h.unfinished m hm hmfin)).resolve_left (hne m hmfin).symm
  · intro m hm hmfin d hd
    have hor := h.awaited m hm hmfin d hd
    rw [above_cons_of_ne (hne m hmfin), List.mem_cons] at hor
    rcases hor with hor | rfl | hor
    · exact .inl hor
    · exact .inl hdisc
    · exact .inr hor
  · intro m hm hmfin x hx
    refine h.above_depends m hm hmfin x ?_
    rw [above_cons_of_ne (hne m hmfin)]
    exact List.mem_cons_of_mem _ hx

/-- On top of the stack, a name that was met has only finished dependents. -/
lemma Inv.dependents_finished {g : Graph} (hg : ¬ Cyclic g.DependsOn)
    {discovered finished rest : List String} {n : String}
    (h : Inv g ⟨discovered, finished, n :: rest⟩) (hdisc : n ∈ discovered) (hfin : n ∉ finished)
    {d : String} (hd : g.DependsOn d n) : d ∈ finished := by
  have hne : n ≠ d := by
    rintro rfl
    exact hg ⟨n, .single hd⟩
  have hmet : d ∈ discovered := by
    rcases h.awaited n hdisc hfin d hd with hmet | habove
    · exact hmet
    · simp [above] at habove
  by_contra hdfin
  -- Otherwise `n` stands above `d` and so depends on it.
  have hback : TransGen g.DependsOn n d := by
    refine h.above_depends d hmet hdfin n ?_
    rw [above_cons_of_ne hne]
    exact List.mem_cons_self ..
  exact hg ⟨n, hback.tail hd⟩

/-- A name that was met is finished when it comes to the top again. -/
lemma Inv.finish {g : Graph} (hg : ¬ Cyclic g.DependsOn)
    {discovered finished rest : List String} {n : String}
    (h : Inv g ⟨discovered, finished, n :: rest⟩) (hdisc : n ∈ discovered) (hfin : n ∉ finished) :
    Inv g ⟨discovered, n :: finished, n :: rest⟩ := by
  have hdeps : ∀ d, g.DependsOn d n → d ∈ finished :=
    fun d hd => h.dependents_finished hg hdisc hfin hd
  refine ⟨List.nodup_cons.mpr ⟨hfin, h.nodup⟩, List.cons_subset.mpr ⟨hdisc, h.finished_met⟩,
    h.stack_nodes, h.discovered_nodes, ?_, ?_, ?_, ?_, ?_⟩
  · exact fun m hm hmfin => h.unfinished m hm (fun hmem => hmfin (List.mem_cons_of_mem _ hmem))
  · intro m hm d hd
    rcases List.mem_cons.mp hm with rfl | hm
    · exact List.mem_cons_of_mem _ (hdeps d hd)
    · exact List.mem_cons_of_mem _ (h.closed m hm d hd)
  · refine List.pairwise_cons.mpr ⟨fun m hm hnm => ?_, h.ordered⟩
    exact hfin (h.closed m hm n hnm)
  · exact fun m hm hmfin => h.awaited m hm (fun hmem => hmfin (List.mem_cons_of_mem _ hmem))
  · exact fun m hm hmfin => h.above_depends m hm (fun hmem => hmfin (List.mem_cons_of_mem _ hmem))

/-- A name that is met puts its unmet dependents on the stack above it. -/
lemma Inv.meet {g : Graph} {discovered finished rest : List String} {n : String}
    (h : Inv g ⟨discovered, finished, n :: rest⟩) (hdisc : n ∉ discovered) :
    Inv g ⟨n :: discovered, finished,
      (g.recordedDependents n).filter (· ∉ n :: discovered) ++ n :: rest⟩ := by
  set new := (g.recordedDependents n).filter (· ∉ n :: discovered) with hnew
  have hmem_new : ∀ d, d ∈ new ↔ g.DependsOn d n ∧ d ∉ n :: discovered := by
    intro d
    rw [hnew, List.mem_filter, mem_recordedDependents, decide_eq_true_eq]
  -- No name that was met is among the new ones, so they all stand above its topmost place.
  have habove : ∀ m ∈ n :: discovered,
      above ⟨n :: discovered, finished, new ++ n :: rest⟩ m
        = new ++ above ⟨discovered, finished, n :: rest⟩ m := by
    intro m hm
    refine List.takeWhile_append_of_pos fun d hd => ?_
    rw [decide_eq_true_eq]
    rintro rfl
    exact ((hmem_new d).mp hd).2 hm
  refine ⟨h.nodup, fun m hm => List.mem_cons_of_mem _ (h.finished_met hm), ?_, ?_, ?_, h.closed,
    h.ordered, ?_, ?_⟩
  · refine List.append_subset.mpr ⟨fun d hd => ?_, h.stack_nodes⟩
    exact ((hmem_new d).mp hd).1.dependent_mem
  · exact List.cons_subset.mpr ⟨h.stack_nodes (List.mem_cons_self ..), h.discovered_nodes⟩
  · intro m hm hmfin
    refine List.mem_append_right _ ?_
    rcases List.mem_cons.mp hm with rfl | hm
    · exact List.mem_cons_self ..
    · exact h.unfinished m hm hmfin
  · intro m hm hmfin d hd
    rw [habove m hm, List.mem_append]
    by_cases hmn : m = n
    · subst hmn
      by_cases hmet : d ∈ m :: discovered
      · exact .inl hmet
      · exact .inr (.inl ((hmem_new d).mpr ⟨hd, hmet⟩))
    · rcases h.awaited m ((List.mem_cons.mp hm).resolve_left hmn) hmfin d hd with hmet | hmet
      · exact .inl (List.mem_cons_of_mem _ hmet)
      · exact .inr (.inr hmet)
  · intro m hm hmfin d hd
    rw [habove m hm, List.mem_append] at hd
    by_cases hmn : m = n
    · subst hmn
      rcases hd with hd | hd
      · exact .single ((hmem_new d).mp hd).1
      · simp [above] at hd
    · have hold := h.above_depends m ((List.mem_cons.mp hm).resolve_left hmn) hmfin
      rcases hd with hd | hd
      · refine .head ((hmem_new d).mp hd).1 (hold n ?_)
        rw [above_cons_of_ne (Ne.symm hmn)]
        exact List.mem_cons_self ..
      · exact hold d hd

/-- A step keeps the state of the walk in order. -/
lemma Inv.step {g : Graph} (hg : ¬ Cyclic g.DependsOn) {w w' : Walk} (h : Inv g w)
    (hstep : w.step g = some w') : Inv g w' := by
  obtain ⟨discovered, finished, stack⟩ := w
  obtain ⟨n, rest, rfl, ⟨hdisc, hfin, rfl⟩ | ⟨hdisc, hfin, rfl⟩ | ⟨hdisc, rfl⟩⟩ := step_some hstep
  · exact h.drop hdisc hfin
  · exact (h.finish hg hdisc hfin).drop hdisc (List.mem_cons_self ..)
  · exact h.meet hdisc

/-! ## The end of a walk -/

/-- A bound on the steps that a walk has left. -/
def measure (g : Graph) (w : Walk) : Nat :=
  g.unmet Dependency.target w.discovered + w.stack.length

/-- Each step takes a name off the stack or meets one. -/
lemma measure_lt {g : Graph} {w w' : Walk} (h : Inv g w) (hstep : w.step g = some w') :
    w'.measure g < w.measure g := by
  obtain ⟨discovered, finished, stack⟩ := w
  obtain ⟨n, rest, rfl, ⟨-, -, rfl⟩ | ⟨-, -, rfl⟩ | ⟨hdisc, rfl⟩⟩ := step_some hstep
  · simp [measure]
  · simp [measure]
  · have hunmet : _ ≤ g.unmet Dependency.target discovered :=
      unmet_cons Dependency.target (h.stack_nodes (List.mem_cons_self ..)) hdisc
    -- A name puts at most one name on the stack for each of its dependents.
    have hnew : ((g.recordedDependents n).filter (· ∉ n :: discovered)).length
        ≤ (g.edges.filter fun e => e.target = n).length := by
      refine (List.length_filter_le _ _).trans ?_
      rw [recordedDependents, List.length_map]
    simp only [measure, List.length_append, List.length_cons]
    omega

/-- What was met or is on the stack stays so. -/
lemma met_step {g : Graph} {w w' : Walk} (hstep : w.step g = some w') {n : String}
    (hn : n ∈ w.discovered ∨ n ∈ w.stack) : n ∈ w'.discovered ∨ n ∈ w'.stack := by
  obtain ⟨m, rest, hstack, hcases⟩ := step_some hstep
  -- The name on top has been met afterwards, and nothing below it is lost.
  have hkeep : m ∈ w'.discovered ∧ w.discovered ⊆ w'.discovered ∧ rest ⊆ w'.stack := by
    rcases hcases with ⟨hdisc, -, rfl⟩ | ⟨hdisc, -, rfl⟩ | ⟨-, rfl⟩
    · exact ⟨hdisc, List.Subset.refl _, List.Subset.refl _⟩
    · exact ⟨hdisc, List.Subset.refl _, List.Subset.refl _⟩
    · exact ⟨List.mem_cons_self .., List.subset_cons_self _ _,
        fun x hx => List.mem_append_right _ (List.mem_cons_of_mem _ hx)⟩
  obtain ⟨hm, hdisc, hrest⟩ := hkeep
  rw [hstack, List.mem_cons] at hn
  rcases hn with hn | rfl | hn
  · exact .inl (hdisc hn)
  · exact .inl hm
  · exact .inr (hrest hn)

/-- A walk ends with an empty stack, and all that was on it has been met. -/
lemma run_spec {g : Graph} (hg : ¬ Cyclic g.DependsOn) {fuel : Nat} {w : Walk} (h : Inv g w)
    (hfuel : w.measure g ≤ fuel) :
    Inv g (w.run g fuel) ∧ (w.run g fuel).stack = [] ∧
      ∀ n, n ∈ w.discovered ∨ n ∈ w.stack → n ∈ (w.run g fuel).discovered := by
  induction fuel generalizing w with
  | zero =>
    have hstack : w.stack = [] := by
      rw [measure] at hfuel
      exact List.length_eq_zero_iff.mp (by omega)
    exact ⟨h, hstack, fun n hn => hn.resolve_right (by simp [hstack])⟩
  | succ fuel ih =>
    unfold run
    split
    · next hstep =>
      have hstack := step_none hstep
      exact ⟨h, hstack, fun n hn => hn.resolve_right (by simp [hstack])⟩
    · next w' hstep =>
      have hlt := measure_lt h hstep
      obtain ⟨hinv, hstack, hmet⟩ := ih (h.step hg hstep) (by omega)
      exact ⟨hinv, hstack, fun n hn => hmet n (met_step hstep hn)⟩

/-- The state of a walk between two names to start from. -/
structure Rest (g : Graph) (w : Walk) : Prop where
  inv : Inv g w
  stack : w.stack = []

lemma rest_empty (g : Graph) : Rest g Walk.empty :=
  ⟨⟨by simp [empty], by simp [empty], by simp [empty], by simp [empty], by simp [empty],
    by simp [empty], by simp [empty], by simp [empty], by simp [empty]⟩, rfl⟩

lemma Inv.push {g : Graph} {w : Walk} (h : Rest g w) {name : String} (hname : name ∈ g.nodes) :
    Inv g { w with stack := name :: w.stack } := by
  obtain ⟨hinv, hstack⟩ := h
  -- With an empty stack nothing is unfinished.
  have hfin : ∀ n ∈ w.discovered, n ∈ w.finished := by
    intro n hn
    by_contra hnfin
    simpa [hstack] using hinv.unfinished n hn hnfin
  refine ⟨hinv.nodup, hinv.finished_met, List.cons_subset.mpr ⟨hname, hinv.stack_nodes⟩,
    hinv.discovered_nodes, ?_, hinv.closed, hinv.ordered, ?_, ?_⟩
  · exact fun n hn hnfin => absurd (hfin n hn) hnfin
  · exact fun n hn hnfin => absurd (hfin n hn) hnfin
  · exact fun n hn hnfin => absurd (hfin n hn) hnfin

/-- Walking on from a name meets it and forgets nothing. -/
lemma visit_spec {g : Graph} (hg : ¬ Cyclic g.DependsOn) {w : Walk} (h : Rest g w) {name : String}
    (hname : name ∈ g.nodes) :
    Rest g (w.visit g name) ∧ name ∈ (w.visit g name).discovered ∧
      w.discovered ⊆ (w.visit g name).discovered := by
  unfold visit
  split_ifs with hmem
  · exact ⟨h, hmem, List.Subset.refl _⟩
  · have hfuel : measure g { w with stack := name :: w.stack } ≤ g.walkFuel := by
      have hle := g.unmet_le Dependency.target w.discovered
      simp only [measure, h.stack, List.length_cons, List.length_nil, walkFuel]
      omega
    obtain ⟨hinv, hstack, hmet⟩ := run_spec hg (Inv.push h hname) hfuel
    exact ⟨⟨hinv, hstack⟩, hmet name (.inr (List.mem_cons_self ..)), fun n hn => hmet n (.inl hn)⟩

/-- Walking on from several names meets all of them. -/
lemma foldl_visit_spec {g : Graph} (hg : ¬ Cyclic g.DependsOn) {names : List String} {w : Walk}
    (h : Rest g w) (hnames : names ⊆ g.nodes) :
    Rest g (names.foldl (visit g) w) ∧ names ⊆ (names.foldl (visit g) w).discovered ∧
      w.discovered ⊆ (names.foldl (visit g) w).discovered := by
  induction names generalizing w with
  | nil => exact ⟨h, List.nil_subset _, List.Subset.refl _⟩
  | cons name names ih =>
    obtain ⟨hname, hnames⟩ := List.cons_subset.mp hnames
    obtain ⟨hrest, hmem, hsub⟩ := visit_spec hg h hname
    obtain ⟨hrest', hmem', hsub'⟩ := ih hrest hnames
    exact ⟨hrest', List.cons_subset.mpr ⟨hsub' hmem, hmem'⟩, List.Subset.trans hsub hsub'⟩

end Walk

/-! ## The order -/

/-- In a graph without cycles the names finished last stand before all that depend on them. -/
lemma isOrder_finishOrder {g : Graph} (hg : ¬ Cyclic g.DependsOn) : g.IsOrder g.finishOrder := by
  obtain ⟨⟨hinv, hstack⟩, hmet, -⟩ :=
    Walk.foldl_visit_spec hg (Walk.rest_empty g) (List.Subset.refl g.nodes)
  have hfin : ∀ n ∈ g.nodes, n ∈ g.finishOrder := by
    intro n hn
    by_contra hnfin
    simpa [hstack] using hinv.unfinished n (hmet hn) hnfin
  refine ⟨hinv.nodup, fun n => ⟨fun hn => ?_, hfin n⟩, ?_⟩
  · exact hinv.discovered_nodes (hinv.finished_met hn)
  · refine .of_pairwise (fun a ha => hg ⟨a, .single ha⟩) hinv.ordered ?_
    exact fun a _ b hab => .inr (hfin b hab.target_mem)

/-- Nothing is misplaced in a list that has each name after its dependencies. -/
lemma misplaced?_eq_none {g : Graph} {names before : List String}
    (h : TargetsFirst g.DependsOn before names) : g.misplaced? before names = none := by
  induction names generalizing before with
  | nil => rfl
  | cons name names ih =>
    have hfind : (g.dependencies name).find? (· ∉ before) = none := by
      rw [List.find?_eq_none]
      intro d hd
      simpa using h.1 d (mem_dependencies.mp hd)
    rw [misplaced?, hfind]
    exact ih h.2

/-- In a graph without cycles the sorting succeeds. -/
lemma sorted_eq_ok {g : Graph} (hg : ¬ Cyclic g.DependsOn) : g.sorted = .ok g.finishOrder := by
  rw [sorted, misplaced?_eq_none (isOrder_finishOrder hg).targetsFirst]

lemma order_of_not_cyclic {g : Graph} (hg : ¬ Cyclic g.DependsOn) :
    g.order = .ok g.finishOrder := by
  rw [order, findCycle_eq_none.mpr hg, sorted_eq_ok hg]

/-- A graph with a cycle has no order, and the error names one of its cycles. -/
lemma order_of_cyclic {g : Graph} (hg : Cyclic g.DependsOn) :
    ∃ cycle, g.order = .error (.circular cycle) ∧ g.IsCycle cycle := by
  have hne : g.findCycle ≠ none := fun h => findCycle_eq_none.mp h hg
  obtain ⟨cycle, hcycle⟩ := Option.ne_none_iff_exists'.mp hne
  exact ⟨cycle, by rw [order, hcycle], isCycle_of_findCycle hcycle⟩

/-- An order is found exactly in a graph without cycles, and it puts dependencies first. -/
lemma isOrder_of_order {g : Graph} {names : List String} (h : g.order = .ok names) :
    ¬ Cyclic g.DependsOn ∧ g.IsOrder names := by
  have hg : ¬ Cyclic g.DependsOn := by
    intro hg
    obtain ⟨cycle, hcycle, -⟩ := order_of_cyclic hg
    rw [hcycle] at h
    cases h
  rw [order_of_not_cyclic hg] at h
  cases h
  exact ⟨hg, isOrder_finishOrder hg⟩

/-- A dependency has the smaller place. -/
lemma IsOrder.idxOf_lt {g : Graph} {names : List String} (h : g.IsOrder names) {a b : String}
    (hab : g.DependsOn a b) : names.idxOf b < names.idxOf a := by
  obtain ⟨front, back, rfl⟩ := List.append_of_mem ((h.mem_iff a).mpr hab.dependent_mem)
  have hb : b ∈ front := (h.targetsFirst.mem_front hab).resolve_left (by simp)
  have ha : a ∉ front := by
    intro hmem
    exact (List.nodup_append.mp h.nodup).2.2 a hmem a (List.mem_cons_self ..) rfl
  rw [List.idxOf_append_of_mem hb, List.idxOf_append_of_notMem ha, List.idxOf_cons_self]
  exact Nat.lt_of_lt_of_le (List.idxOf_lt_length_iff.mpr hb) (Nat.le_add_right _ _)

/-- Whatever edits a graph was built by: it has an order exactly if the dependencies that they state
have no cycle, the order has each mentioned name once and nothing else, and each dependency stands
before the name that has it. Where the search finds no cycle the sorting does not fail. -/
theorem order_build_spec (edits : List Edit) :
    ((∃ names, (build edits).order = .ok names) ↔
      ¬ Cyclic fun a b => Edit.dependency a b ∈ edits) ∧
    (∀ names, (build edits).order = .ok names →
      names.Nodup ∧ (∀ n, n ∈ names ↔ ∃ e ∈ edits, n ∈ e.names) ∧
      ∀ a b, Edit.dependency a b ∈ edits → names.idxOf b < names.idxOf a) ∧
    ((build edits).findCycle = none → ∃ names, (build edits).sorted = .ok names) := by
  have hrel : (fun a b => Edit.dependency a b ∈ edits) = (build edits).DependsOn := by
    funext a b
    exact propext dependsOn_build.symm
  refine ⟨?_, ?_, ?_⟩
  · rw [hrel]
    exact ⟨fun ⟨names, h⟩ => (isOrder_of_order h).1, fun h => ⟨_, order_of_not_cyclic h⟩⟩
  · intro names h
    have horder := (isOrder_of_order h).2
    refine ⟨horder.nodup, fun n => ?_, fun a b hab => ?_⟩
    · rw [horder.mem_iff, mem_nodes_build]
    · exact horder.idxOf_lt (dependsOn_build.mpr hab)
  · exact fun h => ⟨_, sorted_eq_ok (findCycle_eq_none.mp h)⟩

end Graph

end DesignTokens
