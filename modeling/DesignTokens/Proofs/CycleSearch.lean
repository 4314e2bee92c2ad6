import DesignTokens.Proofs.Dependencies
import Mathlib.Data.List.Chain
import Mathlib.Tactic.Common

/-!
# The search for a cycle

The depth-first search that `Graph.findCycle` runs is sound and complete. A name that was met is
either on the way or has been left, and a name is left only when all it depends on was left before.
So the names that were left are closed under dependencies and none of them is on a cycle
(`Search.Inv`); each step keeps that (`Search.Inv.next`), and when nothing is on the way any more it
holds of all names that were met. The search ends because each step uses up a name, a dependency or
a frame (`Search.measure_lt`).
-/

namespace DesignTokens

open Relation

namespace Graph

/-- A closed way along dependencies that passes no name twice. -/
structure IsCycle (g : Graph) (names : List String) : Prop where
  two_le : 2 ≤ names.length
  head_eq_last : names.head? = names.getLast?
  chain : names.IsChain g.DependsOn
  nodup : names.dropLast.Nodup

/-- A closed way leads from its first name back to that name. -/
lemma IsCycle.cyclic {g : Graph} {names : List String} (h : g.IsCycle names) :
    Cyclic g.DependsOn := by
  match names, h with
  | [], h => exact absurd h.two_le (by simp)
  | [a], h => exact absurd h.two_le (by simp)
  | a :: b :: rest, h =>
    obtain ⟨hab, hrest⟩ := List.isChain_cons_cons.mp h.chain
    have hlast : (b :: rest).getLast (List.cons_ne_nil b rest) = a := by
      have heq := h.head_eq_last
      rw [List.getLast?_cons_cons,
        List.getLast?_eq_getLast_of_ne_nil (List.cons_ne_nil b rest)] at heq
      exact (Option.some.inj heq).symm
    exact ⟨a, .head' hab (List.relationReflTransGen_of_exists_isChain_cons rest hrest hlast)⟩

namespace Search

/-! ## What one step does -/

/-- The three ways in which a search goes on: it goes back from a name with nothing pending, it
passes over a dependency that was met, or it enters one that was not. -/
lemma step_next {g : Graph} {s s' : Search} (h : s.step g = .next s') :
    (∃ name frames, s.frames = ⟨name, []⟩ :: frames ∧ s' = ⟨s.visited, frames⟩) ∨
    (∃ name target pending frames, s.frames = ⟨name, target :: pending⟩ :: frames ∧
      target ∉ s.path ∧ target ∈ s.visited ∧ s' = ⟨s.visited, ⟨name, pending⟩ :: frames⟩) ∨
    (∃ name target pending frames, s.frames = ⟨name, target :: pending⟩ :: frames ∧
      target ∉ s.path ∧ target ∉ s.visited ∧
      s' = ⟨target :: s.visited,
        ⟨target, g.dependencies target⟩ :: ⟨name, pending⟩ :: frames⟩) := by
  unfold step at h
  split at h
  · cases h
  · next frame frames hframes =>
    obtain ⟨name, pending⟩ := frame
    cases pending with
    | nil =>
      simp only [Result.next.injEq] at h
      exact .inl ⟨name, frames, hframes, h.symm⟩
    | cons target pending =>
      simp only at h
      split_ifs at h with hpath hvisited
      · simp only [Result.next.injEq] at h
        exact .inr (.inl ⟨name, target, pending, frames, hframes, hpath, hvisited, h.symm⟩)
      · simp only [Result.next.injEq] at h
        exact .inr (.inr ⟨name, target, pending, frames, hframes, hpath, hvisited, h.symm⟩)

/-- A search reports a cycle when the next dependency is on the way. -/
lemma step_cycle {g : Graph} {s : Search} {names : List String} (h : s.step g = .cycle names) :
    ∃ name target pending frames, s.frames = ⟨name, target :: pending⟩ :: frames ∧
      target ∈ s.path ∧ names = s.path.dropWhile (· ≠ target) ++ [target] := by
  unfold step at h
  split at h
  · cases h
  · next frame frames hframes =>
    obtain ⟨name, pending⟩ := frame
    cases pending with
    | nil => cases h
    | cons target pending =>
      simp only at h
      split_ifs at h with hpath hvisited
      simp only [Result.cycle.injEq] at h
      exact ⟨name, target, pending, frames, hframes, hpath, h.symm⟩

/-- A search is done when nothing is on the way. -/
lemma step_done {g : Graph} {s : Search} {names : List String} (h : s.step g = .done names) :
    s.frames = [] ∧ names = s.visited := by
  unfold step at h
  split at h
  · next hframes =>
    simp only [Result.done.injEq] at h
    exact ⟨hframes, h.symm⟩
  · next frame frames hframes =>
    obtain ⟨name, pending⟩ := frame
    cases pending with
    | nil => cases h
    | cons target pending =>
      simp only at h
      split_ifs at h

/-! ## What each step keeps -/

/-- Met, and not on the way any more. -/
def Left (s : Search) (n : String) : Prop :=
  n ∈ s.visited ∧ n ∉ s.path

/-- What each name on the way depends on is pending there, was left, or is the name `above` that
was entered from there. -/
def Followed (g : Graph) (left : String → Prop) : (above : Option String) → List Frame → Prop
  | _, [] => True
  | above, f :: frames =>
    (∀ d, g.DependsOn f.name d → d ∈ f.pending ∨ left d ∨ above = some d) ∧
      Followed g left (some f.name) frames

lemma Followed.mono {g : Graph} {left left' : String → Prop} (hleft : ∀ n, left n → left' n)
    {above : Option String} {frames : List Frame} (h : Followed g left above frames) :
    Followed g left' above frames := by
  induction frames generalizing above with
  | nil => trivial
  | cons f frames ih =>
    obtain ⟨hf, hframes⟩ := h
    refine ⟨fun d hd => ?_, ih hframes⟩
    rcases hf d hd with hd | hd | hd
    · exact .inl hd
    · exact .inr (.inl (hleft d hd))
    · exact .inr (.inr hd)

/-- Once the name above counts as left, nothing is above. -/
lemma Followed.of_above {g : Graph} {left : String → Prop} {x : String} (hx : left x)
    {frames : List Frame} (h : Followed g left (some x) frames) :
    Followed g left none frames := by
  cases frames with
  | nil => trivial
  | cons f frames =>
    obtain ⟨hf, hframes⟩ := h
    refine ⟨fun d hd => ?_, hframes⟩
    rcases hf d hd with hd | hd | hd
    · exact .inl hd
    · exact .inr (.inl hd)
    · exact .inr (.inl (Option.some.inj hd ▸ hx))

/-- The state of a search between two steps. -/
structure Inv (g : Graph) (s : Search) : Prop where
  /-- No name is on the way twice. -/
  nodup : s.path.Nodup
  /-- What is on the way was met. -/
  visited : ∀ n ∈ s.path, n ∈ s.visited
  /-- The way goes along dependencies. -/
  chain : s.path.IsChain g.DependsOn
  /-- Only dependencies are pending. -/
  pending : ∀ f ∈ s.frames, ∀ d ∈ f.pending, g.DependsOn f.name d
  /-- No dependency of a name on the way is forgotten. -/
  followed : Followed g s.Left none s.frames
  /-- A name that was left depends on names that were left. -/
  closed : ∀ n, s.Left n → ∀ d, g.DependsOn n d → s.Left d
  /-- A name that was left is on no cycle. -/
  acyclic : ∀ n, s.Left n → ¬ TransGen g.DependsOn n n

lemma path_cons (visited : List String) (f : Frame) (frames : List Frame) :
    (⟨visited, f :: frames⟩ : Search).path = (⟨visited, frames⟩ : Search).path ++ [f.name] := by
  simp [path]

/-- What a name that was left depends on was left too. -/
lemma Inv.left_of_reaches {g : Graph} {s : Search} (h : Inv g s) {n d : String} (hn : s.Left n)
    (hd : ReflTransGen g.DependsOn n d) : s.Left d := by
  induction hd with
  | refl => exact hn
  | tail _ hlast ih => exact h.closed _ ih _ hlast

/-- Going back from a name leaves it. -/
lemma Inv.leave {g : Graph} {visited : List String} {x : String} {frames : List Frame}
    (h : Inv g ⟨visited, ⟨x, []⟩ :: frames⟩) : Inv g ⟨visited, frames⟩ := by
  have hpath := path_cons visited ⟨x, []⟩ frames
  have hx : x ∈ visited := h.visited x (by simp [hpath])
  have hnodup := h.nodup
  rw [hpath, List.nodup_append] at hnodup
  have hxpath : x ∉ (⟨visited, frames⟩ : Search).path :=
    fun hmem => hnodup.2.2 x hmem x (List.mem_singleton_self x) rfl
  -- What is left now is what was left before, and `x`.
  have hleft : ∀ n, (⟨visited, frames⟩ : Search).Left n ↔
      (⟨visited, ⟨x, []⟩ :: frames⟩ : Search).Left n ∨ n = x := by
    intro n
    simp only [Left, hpath, List.mem_append, List.mem_singleton, not_or]
    constructor
    · rintro ⟨hv, hp⟩
      by_cases hnx : n = x
      · exact .inr hnx
      · exact .inl ⟨hv, hp, hnx⟩
    · rintro (⟨hv, hp, -⟩ | rfl)
      · exact ⟨hv, hp⟩
      · exact ⟨hx, hxpath⟩
  have hdeps : ∀ d, g.DependsOn x d → (⟨visited, ⟨x, []⟩ :: frames⟩ : Search).Left d := by
    intro d hd
    rcases h.followed.1 d hd with hd | hd | hd
    · cases hd
    · exact hd
    · cases hd
  refine ⟨hnodup.1, fun n hn => h.visited n (by rw [hpath]; exact List.mem_append_left _ hn),
    (hpath ▸ h.chain).left_of_append, fun f hf => h.pending f (List.mem_cons_of_mem _ hf),
    ?_, ?_, ?_⟩
  · have hmono := h.followed.2.mono fun n hn => (hleft n).mpr (.inl hn)
    exact hmono.of_above ((hleft x).mpr (.inr rfl))
  · intro n hn d hd
    rcases (hleft n).mp hn with hn | rfl
    · exact (hleft d).mpr (.inl (h.closed n hn d hd))
    · exact (hleft d).mpr (.inl (hdeps d hd))
  · intro n hn
    rcases (hleft n).mp hn with hn | rfl
    · exact h.acyclic n hn
    · -- A cycle through `n` stays among names that were left, and `n` was on the way.
      intro hcycle
      obtain ⟨d, hd, hback⟩ := TransGen.head'_iff.mp hcycle
      have hn' := h.left_of_reaches (hdeps d hd) hback
      exact hn'.2 (by simp [hpath])

/-- A dependency that was met and is not on the way was left. -/
lemma Inv.skip {g : Graph} {visited : List String} {x target : String} {pending : List String}
    {frames : List Frame} (h : Inv g ⟨visited, ⟨x, target :: pending⟩ :: frames⟩)
    (hpath : target ∉ (⟨visited, ⟨x, target :: pending⟩ :: frames⟩ : Search).path)
    (hvisited : target ∈ visited) : Inv g ⟨visited, ⟨x, pending⟩ :: frames⟩ := by
  refine ⟨h.nodup, h.visited, h.chain, ?_, ⟨?_, h.followed.2⟩, h.closed, h.acyclic⟩
  · intro f hf d hd
    rcases List.mem_cons.mp hf with rfl | hf
    · exact h.pending _ (List.mem_cons_self ..) d (List.mem_cons_of_mem _ hd)
    · exact h.pending f (List.mem_cons_of_mem _ hf) d hd
  · intro d hd
    rcases h.followed.1 d hd with hd | hd
    · rcases List.mem_cons.mp hd with rfl | hd
      · exact .inr (.inl ⟨hvisited, hpath⟩)
      · exact .inl hd
    · exact .inr hd

/-- Entering a dependency that was not met puts it on the way. -/
lemma Inv.enter {g : Graph} {visited : List String} {x target : String} {pending : List String}
    {frames : List Frame} (h : Inv g ⟨visited, ⟨x, target :: pending⟩ :: frames⟩)
    (hpath : target ∉ (⟨visited, ⟨x, target :: pending⟩ :: frames⟩ : Search).path)
    (hvisited : target ∉ visited) :
    Inv g ⟨target :: visited, ⟨target, g.dependencies target⟩ :: ⟨x, pending⟩ :: frames⟩ := by
  have hpath' : (⟨target :: visited,
      ⟨target, g.dependencies target⟩ :: ⟨x, pending⟩ :: frames⟩ : Search).path
        = (⟨visited, ⟨x, target :: pending⟩ :: frames⟩ : Search).path ++ [target] := by
    simp [path]
  have hedge : g.DependsOn x target :=
    h.pending _ (List.mem_cons_self ..) target (List.mem_cons_self ..)
  -- `target` was not met before, so it was not left, and nothing else changes its side.
  have hleft : ∀ n, (⟨target :: visited,
      ⟨target, g.dependencies target⟩ :: ⟨x, pending⟩ :: frames⟩ : Search).Left n ↔
        (⟨visited, ⟨x, target :: pending⟩ :: frames⟩ : Search).Left n := by
    intro n
    simp only [Left, hpath', List.mem_append, List.mem_cons, List.not_mem_nil, or_false, not_or]
    constructor
    · rintro ⟨hn | hn, hp, hne⟩
      · exact absurd hn hne
      · exact ⟨hn, hp⟩
    · rintro ⟨hn, hp⟩
      exact ⟨.inr hn, hp, fun hne => hvisited (hne ▸ hn)⟩
  refine ⟨?_, ?_, ?_, ?_, ⟨?_, ?_, ?_⟩, ?_, ?_⟩
  · rw [hpath', List.nodup_append]
    refine ⟨h.nodup, by simp, ?_⟩
    rintro a ha b hb rfl
    exact hpath (List.mem_singleton.mp hb ▸ ha)
  · intro n hn
    rw [hpath'] at hn
    rcases List.mem_append.mp hn with hn | hn
    · exact List.mem_cons_of_mem _ (h.visited n hn)
    · exact List.mem_singleton.mp hn ▸ List.mem_cons_self ..
  · rw [hpath']
    refine h.chain.append (List.isChain_singleton _) ?_
    intro a ha b hb
    have hlast : (⟨visited, ⟨x, target :: pending⟩ :: frames⟩ : Search).path.getLast? = some x := by
      simp [path]
    rw [hlast] at ha
    cases ha
    cases hb
    exact hedge
  · intro f hf d hd
    rcases List.mem_cons.mp hf with rfl | hf
    · exact mem_dependencies.mp hd
    · rcases List.mem_cons.mp hf with rfl | hf
      · exact h.pending _ (List.mem_cons_self ..) d (List.mem_cons_of_mem _ hd)
      · exact h.pending f (List.mem_cons_of_mem _ hf) d hd
  · exact fun d hd => .inl (mem_dependencies.mpr hd)
  · intro d hd
    rcases h.followed.1 d hd with hd | hd | hd
    · rcases List.mem_cons.mp hd with rfl | hd
      · exact .inr (.inr rfl)
      · exact .inl hd
    · exact .inr (.inl ((hleft d).mpr hd))
    · cases hd
  · exact h.followed.2.mono fun n hn => (hleft n).mpr hn
  · exact fun n hn d hd => (hleft d).mpr (h.closed n ((hleft n).mp hn) d hd)
  · exact fun n hn => h.acyclic n ((hleft n).mp hn)

/-- A step that goes on keeps the state of the search in order. -/
lemma Inv.next {g : Graph} {s s' : Search} (h : Inv g s) (hstep : s.step g = .next s') :
    Inv g s' := by
  obtain ⟨visited, frames⟩ := s
  rcases step_next hstep with ⟨x, frames, rfl, rfl⟩ |
    ⟨x, target, pending, frames, rfl, hpath, hvisited, rfl⟩ |
    ⟨x, target, pending, frames, rfl, hpath, hvisited, rfl⟩
  · exact h.leave
  · exact h.skip hpath hvisited
  · exact h.enter hpath hvisited

/-- The part of the way from a name on it is closed by that name. -/
lemma Inv.isCycle {g : Graph} {s : Search} (h : Inv g s) {names : List String}
    (hstep : s.step g = .cycle names) : g.IsCycle names := by
  obtain ⟨x, target, pending, frames, hframes, htarget, rfl⟩ := step_cycle hstep
  have hsuffix : s.path.dropWhile (· ≠ target) <:+ s.path := List.dropWhile_suffix _
  obtain ⟨rest, hrest⟩ := dropWhile_ne_of_mem htarget
  rw [hrest] at hsuffix ⊢
  refine ⟨by simp, ?_, ?_, ?_⟩
  · rw [List.getLast?_append, List.cons_append, List.head?_cons]
    rfl
  · refine (h.chain.suffix hsuffix).append (List.isChain_singleton _) ?_
    intro a ha b hb
    have hlast : s.path.getLast? = some x := by simp [path, hframes]
    -- The way ends at `x`, whose next dependency is `target`.
    have hlast' : (target :: rest).getLast? = s.path.getLast? := by
      obtain ⟨front, hfront⟩ := hsuffix
      rw [← hfront, List.getLast?_append_of_ne_nil _ (List.cons_ne_nil _ _)]
    rw [hlast', hlast] at ha
    cases ha
    cases hb
    exact h.pending ⟨x, target :: pending⟩ (hframes ▸ List.mem_cons_self ..) target
      (List.mem_cons_self ..)
  · rw [List.dropLast_concat]
    exact h.nodup.sublist hsuffix.sublist

/-! ## The end of a search -/

/-- A bound on the steps that a search has left. -/
def measure (g : Graph) (s : Search) : Nat :=
  g.unmet Dependency.dependent s.visited + s.frames.length + (s.frames.flatMap Frame.pending).length

/-- Each step uses something up. -/
lemma measure_lt {g : Graph} {s s' : Search} (h : Inv g s) (hstep : s.step g = .next s') :
    s'.measure g < s.measure g := by
  obtain ⟨visited, frames⟩ := s
  rcases step_next hstep with ⟨x, frames, rfl, rfl⟩ |
    ⟨x, target, pending, frames, rfl, hpath, hvisited, rfl⟩ |
    ⟨x, target, pending, frames, rfl, hpath, hvisited, rfl⟩
  · simp [measure]
  · simp [measure]
  · -- The new frame and what is pending there are paid for by `target` and its dependencies.
    have hedge : g.DependsOn x target :=
      h.pending _ (List.mem_cons_self ..) target (List.mem_cons_self ..)
    have hunmet : _ ≤ g.unmet Dependency.dependent visited :=
      unmet_cons Dependency.dependent hedge.target_mem hvisited
    simp only [measure, List.flatMap_cons, List.length_append, List.length_cons, dependencies,
      List.length_map]
    omega

/-- No name of the list is on a cycle, nor is anything that such a name depends on outside of
the list. -/
structure Settled (g : Graph) (names : List String) : Prop where
  closed : ∀ n ∈ names, ∀ d, g.DependsOn n d → d ∈ names
  acyclic : ∀ n ∈ names, ¬ TransGen g.DependsOn n n

lemma left_iff_of_frames_nil {s : Search} (hs : s.frames = []) {n : String} :
    s.Left n ↔ n ∈ s.visited := by
  simp [Left, path, hs]

/-- A search that ends leaves its visited names settled. -/
lemma Inv.settled {g : Graph} {s : Search} (h : Inv g s) (hs : s.frames = []) :
    Settled g s.visited := by
  constructor
  · intro n hn d hd
    exact (left_iff_of_frames_nil hs).mp (h.closed n ((left_iff_of_frames_nil hs).mpr hn) d hd)
  · intro n hn
    exact h.acyclic n ((left_iff_of_frames_nil hs).mpr hn)

/-- A search starts in order, if the names met by earlier ones are settled. -/
lemma Settled.inv_start {g : Graph} {visited : List String} (h : Settled g visited) {name : String}
    (hname : name ∉ visited) : Inv g (start g visited name) := by
  have hleft : ∀ n, (start g visited name).Left n ↔ n ∈ visited := by
    intro n
    simp only [Left, start, path, List.map_cons, List.map_nil, List.reverse_singleton,
      List.mem_cons, List.not_mem_nil, or_false]
    constructor
    · rintro ⟨hn | hn, hne⟩
      · exact absurd hn hne
      · exact hn
    · exact fun hn => ⟨.inr hn, fun hne => hname (hne ▸ hn)⟩
  refine ⟨by simp [path, start], by simp [path, start], by simp [path, start],
    by simp [start], ?_, ?_, ?_⟩
  · exact ⟨fun d hd => .inl (mem_dependencies.mpr hd), trivial⟩
  · exact fun n hn d hd => (hleft d).mpr (h.closed n ((hleft n).mp hn) d hd)
  · exact fun n hn => h.acyclic n ((hleft n).mp hn)

/-- The fuel is enough for the start. -/
lemma measure_start_le {g : Graph} {visited : List String} {name : String} (hmem : name ∈ g.nodes)
    (hname : name ∉ visited) : (start g visited name).measure g ≤ g.searchFuel := by
  have hunmet := unmet_cons Dependency.dependent hmem hname
  have hle := g.unmet_le Dependency.dependent visited
  simp only [measure, start, List.flatMap_cons, List.flatMap_nil, List.length_append,
    List.length_cons, List.length_nil, dependencies, List.length_map, searchFuel]
  omega

/-- A step forgets no visited name. -/
lemma visited_subset_next {g : Graph} {s s' : Search} (hstep : s.step g = .next s') :
    s.visited ⊆ s'.visited := by
  rcases step_next hstep with ⟨_, _, _, rfl⟩ | ⟨_, _, _, _, _, _, _, rfl⟩ |
    ⟨_, _, _, _, _, _, _, rfl⟩
  · exact List.Subset.refl _
  · exact List.Subset.refl _
  · exact List.subset_cons_self _ _

/-- A search that ends without a cycle has settled all names that it met. -/
lemma run_ok {g : Graph} {fuel : Nat} {s : Search} (h : Inv g s) (hfuel : s.measure g ≤ fuel)
    {names : List String} (hrun : s.run g fuel = .ok names) :
    Settled g names ∧ s.visited ⊆ names := by
  induction fuel generalizing s with
  | zero =>
    -- Each frame counts for the measure, so there is none.
    have hframes : s.frames = [] := by
      by_contra hne
      obtain ⟨f, frames, hf⟩ := List.exists_cons_of_ne_nil hne
      simp [measure, hf] at hfuel
    cases hrun
    exact ⟨h.settled hframes, List.Subset.refl _⟩
  | succ fuel ih =>
    unfold run at hrun
    split at hrun
    · next s' hstep =>
      have hlt := measure_lt h hstep
      obtain ⟨hsettled, hsub⟩ := ih (h.next hstep) (by omega) hrun
      exact ⟨hsettled, List.Subset.trans (visited_subset_next hstep) hsub⟩
    · cases hrun
    · next visited hstep =>
      obtain ⟨hframes, rfl⟩ := step_done hstep
      cases hrun
      exact ⟨h.settled hframes, List.Subset.refl _⟩

/-- What a search reports is a cycle. -/
lemma run_error {g : Graph} {fuel : Nat} {s : Search} (h : Inv g s) {names : List String}
    (hrun : s.run g fuel = .error names) : g.IsCycle names := by
  induction fuel generalizing s with
  | zero => cases hrun
  | succ fuel ih =>
    unfold run at hrun
    split at hrun
    · next s' hstep => exact ih (h.next hstep) hrun
    · next cycle hstep =>
      cases hrun
      exact h.isCycle hstep
    · cases hrun

end Search

/-! ## Searching from every name -/

/-- What the search returns is a cycle. -/
lemma searchFrom_eq_some {g : Graph} {names visited cycle : List String}
    (hvisited : Search.Settled g visited) (hnames : names ⊆ g.nodes)
    (h : g.searchFrom visited names = some cycle) : g.IsCycle cycle := by
  induction names generalizing visited with
  | nil => cases h
  | cons name names ih =>
    obtain ⟨hname, hnames⟩ := List.cons_subset.mp hnames
    unfold searchFrom at h
    split_ifs at h with hmem
    · exact ih hvisited hnames h
    · have hinv := hvisited.inv_start hmem
      split at h
      · next found hrun =>
        cases h
        exact Search.run_error hinv hrun
      · next visited' hrun =>
        exact ih (Search.run_ok hinv (Search.measure_start_le hname hmem) hrun).1 hnames h

/-- If the search returns nothing, no name it started from is on a cycle. -/
lemma searchFrom_eq_none {g : Graph} {names visited : List String}
    (hvisited : Search.Settled g visited) (hnames : names ⊆ g.nodes)
    (h : g.searchFrom visited names = none) :
    ∀ n, n ∈ visited ∨ n ∈ names → ¬ TransGen g.DependsOn n n := by
  induction names generalizing visited with
  | nil =>
    rintro n (hn | hn)
    · exact hvisited.acyclic n hn
    · cases hn
  | cons name names ih =>
    obtain ⟨hname, hnames⟩ := List.cons_subset.mp hnames
    unfold searchFrom at h
    split_ifs at h with hmem
    · rintro n (hn | hn)
      · exact hvisited.acyclic n hn
      · rcases List.mem_cons.mp hn with rfl | hn
        · exact hvisited.acyclic n hmem
        · exact ih hvisited hnames h n (.inr hn)
    · have hinv := hvisited.inv_start hmem
      split at h
      · cases h
      · next visited' hrun =>
        obtain ⟨hsettled, hsub⟩ :=
          Search.run_ok hinv (Search.measure_start_le hname hmem) hrun
        rintro n (hn | hn)
        · exact hvisited.acyclic n hn
        · rcases List.mem_cons.mp hn with rfl | hn
          · exact hsettled.acyclic n (hsub (List.mem_cons_self ..))
          · exact ih hsettled hnames h n (.inr hn)

lemma settled_nil (g : Graph) : Search.Settled g [] :=
  ⟨by simp, by simp⟩

/-- What the search finds is a cycle. -/
lemma isCycle_of_findCycle {g : Graph} {cycle : List String} (h : g.findCycle = some cycle) :
    g.IsCycle cycle :=
  searchFrom_eq_some g.settled_nil (List.Subset.refl _) h

/-- The search finds nothing exactly in a graph without cycles. -/
lemma findCycle_eq_none {g : Graph} : g.findCycle = none ↔ ¬ Cyclic g.DependsOn := by
  constructor
  · rintro h ⟨a, ha⟩
    obtain ⟨b, hab, -⟩ := TransGen.head'_iff.mp ha
    exact searchFrom_eq_none g.settled_nil (List.Subset.refl _) h a (.inr hab.dependent_mem) ha
  · intro h
    by_contra hne
    obtain ⟨cycle, hcycle⟩ := Option.ne_none_iff_exists'.mp hne
    exact h (isCycle_of_findCycle hcycle).cyclic

/-- Whatever edits a graph was built by: the search finds nothing exactly if no name reaches itself
through recorded dependencies, what it finds is a closed way along them that passes no name twice,
and the recorded dependencies are those that the edits state. -/
theorem findCycle_build_spec (edits : List Edit) :
    ((build edits).findCycle = none ↔
      ¬ ∃ a, TransGen (fun x y => y ∈ (build edits).dependencies x) a a) ∧
    (∀ cycle, (build edits).findCycle = some cycle →
      2 ≤ cycle.length ∧ cycle.head? = cycle.getLast? ∧
      cycle.IsChain (fun x y => y ∈ (build edits).dependencies x) ∧ cycle.dropLast.Nodup) ∧
    ∀ x y, y ∈ (build edits).dependencies x ↔ Edit.dependency x y ∈ edits := by
  have hrel : (fun x y => y ∈ (build edits).dependencies x) = (build edits).DependsOn := by
    funext x y
    exact propext mem_dependencies
  refine ⟨?_, ?_, ?_⟩
  · rw [hrel]
    exact findCycle_eq_none
  · intro cycle h
    have hcycle := isCycle_of_findCycle h
    rw [hrel]
    exact ⟨hcycle.two_le, hcycle.head_eq_last, hcycle.chain, hcycle.nodup⟩
  · intro x y
    rw [mem_dependencies, dependsOn_build]

/-- Two names depend on each other, and the search comes to them from a third. -/
def loopEdits : List Edit :=
  [.node "start", .dependency "start" "a", .dependency "a" "b", .dependency "b" "a"]

theorem findCycle_build_spec_loop :
    (build loopEdits).findCycle = some ["a", "b", "a"] ∧
    (∃ n, TransGen (fun x y => y ∈ (build loopEdits).dependencies x) n n) ∧
    ["a", "b", "a"].IsChain fun x y => y ∈ (build loopEdits).dependencies x :=
  have hfound : (build loopEdits).findCycle = some ["a", "b", "a"] := by decide +kernel
  have ⟨hnone, hsome, _⟩ := findCycle_build_spec loopEdits
  have hcyclic := not_not.mp (mt hnone.mpr (by rw [hfound]; exact Option.some_ne_none _))
  ⟨hfound, hcyclic, (hsome _ hfound).2.2.1⟩

end Graph

end DesignTokens
