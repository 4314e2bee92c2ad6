import DesignTokens.Proofs.ParsedTokens
import DesignTokens.Proofs.Publication

/-!
# Runs of a workspace

A workspace is changed by new settings, a new root and passes. A pass reads something, or nothing,
and then publishes all tokens anew (`Pass.run_of_read`). What one pass keeps, every run of
operations keeps (`after_invariant`).

* What is published is always what a pass over the present sources publishes (`Steady`). So a pass
  that takes in nothing new changes nothing that can be seen (`idle_pass_unchanged`).
* A pass over circular sources publishes the tokens as parsed, each with the value that was
  published for it before; so each value in the registry comes from a pass that went well
  (`circular_pass_carries`).
* A pass that goes well publishes every token, but of tokens with one key the registry keeps the
  last one (`ok_pass_publishes`).
-/

namespace DesignTokens

namespace Workspace

open Registry (last?)

lemma toOption_eq_some {ε α : Type} {answer : Except ε α} {a : α} :
    answer.toOption = some a ↔ answer = .ok a := by
  cases answer with
  | error e => simp [Except.toOption]
  | ok b => simp [Except.toOption]

/-! ## Operations -/

/-- Something is read, or nothing, and then all tokens are resolved and published. The files may be
others in each pass. -/
inductive Pass where
  | reload (fs : FileSystem)
  | loadFile (fs : FileSystem) (path : String)
  | loadText (fs : FileSystem) (path text : String)
  | resolveAll

namespace Pass

/-- A pass over a workspace, and what it answers. -/
def run (w : Workspace) : Pass → Workspace × Except Error Nat
  | .reload fs => w.reload fs
  | .loadFile fs path => w.loadFile fs path
  | .loadText fs path text => w.loadText fs path text
  | .resolveAll => w.resolveAll

/-- The one file that a pass loads, and what it is read as. -/
def file? (w : Workspace) : Pass → Option (String × Except Error TokenFile)
  | .loadFile fs path =>
    let options := w.optionsFor path
    some (options.filePath, readTokenFile fs path options)
  | .loadText fs path text =>
    let options := { w.optionsFor path with definitionUri := fileUri fs path }
    some (options.filePath, TokenFile.parse text (.ofPath path) options)
  | _ => none

/-- The workspace whose tokens a pass resolves. Settings that are refused end it before that. -/
def read (w : Workspace) : Pass → Except Error Workspace
  | .reload fs => (w.settings.targets fs w.root).map (w.withFiles fs)
  | p => .ok ((p.file? w).elim w fun f => w.withFile f.1 f.2)

/-- The pass resolves what it has read. -/
def Succeeds (w : Workspace) (p : Pass) : Prop :=
  ∃ w' n, p.read w = .ok w' ∧ w'.resolveAll.2 = .ok n

/-- Refused settings change nothing. -/
lemma run_of_read_error {w : Workspace} {p : Pass} {e : Error} (h : p.read w = .error e) :
    p.run w = (w, .error e) := by
  cases p with
  | reload fs =>
    rw [run, Workspace.reload]
    cases htargets : w.settings.targets fs w.root with
    | error e' =>
      simp only [read, htargets] at h
      cases h
      rfl
    | ok targets =>
      simp only [read, htargets] at h
      cases h
  | loadFile fs path => cases h
  | loadText fs path text => cases h
  | resolveAll => cases h

/-- The ways to read: all files that the settings name, one file, or nothing. -/
lemma read_cases {w w' : Workspace} {p : Pass} (h : p.read w = .ok w') :
    (∃ fs targets, p = .reload fs ∧ w.settings.targets fs w.root = .ok targets ∧
      w' = w.withFiles fs targets) ∨
    (∃ filePath parsed, p.file? w = some (filePath, parsed) ∧ w' = w.withFile filePath parsed ∧
      p.run w = w.takeIn filePath parsed) ∨
    (p = .resolveAll ∧ w' = w) := by
  cases p with
  | reload fs =>
    cases htargets : w.settings.targets fs w.root with
    | error e =>
      simp only [read, htargets] at h
      cases h
    | ok targets =>
      simp only [read, htargets] at h
      cases h
      exact .inl ⟨fs, targets, rfl, htargets, rfl⟩
  | loadFile fs path =>
    cases h
    exact .inr (.inl ⟨_, _, rfl, rfl, rfl⟩)
  | loadText fs path text =>
    cases h
    exact .inr (.inl ⟨_, _, rfl, rfl, rfl⟩)
  | resolveAll =>
    cases h
    exact .inr (.inr ⟨rfl, rfl⟩)

/-- A pass with one file takes that file in. -/
lemma read_of_file? {w : Workspace} {p : Pass} {filePath : String}
    {parsed : Except Error TokenFile} (h : p.file? w = some (filePath, parsed)) :
    p.read w = .ok (w.withFile filePath parsed) := by
  cases p with
  | reload fs => cases h
  | loadFile fs path =>
    cases h
    rfl
  | loadText fs path text =>
    cases h
    rfl
  | resolveAll => cases h

/-- A pass publishes what it has read. The error of a file that could not be read is its answer. -/
lemma run_of_read {w w' : Workspace} {p : Pass} (h : p.read w = .ok w') :
    (p.run w).1 = w'.resolveAll.1 ∧
      (p.run w).2 =
        match p.file? w with
        | some (_, .error e) => .error e
        | _ => w'.resolveAll.2 := by
  rcases read_cases h with ⟨fs, targets, rfl, htargets, rfl⟩ |
    ⟨filePath, parsed, hfile, rfl, hrun⟩ | ⟨rfl, rfl⟩
  · rw [run, Workspace.reload, htargets]
    exact ⟨rfl, rfl⟩
  · rw [hrun, hfile]
    cases parsed with
    | ok file => exact ⟨rfl, rfl⟩
    | error e => exact ⟨rfl, rfl⟩
  · exact ⟨rfl, rfl⟩

/-- Reading does not touch the registry. -/
lemma registry_of_read {w w' : Workspace} {p : Pass} (h : p.read w = .ok w') :
    w'.registry = w.registry := by
  rcases read_cases h with ⟨fs, targets, -, -, rfl⟩ | ⟨filePath, parsed, -, rfl, -⟩ | ⟨-, rfl⟩
  · rfl
  · cases parsed with
    | ok file => rfl
    | error e => rfl
  · rfl

end Pass

/-- What can be done to a workspace. -/
inductive Operation where
  | setSettings (settings : Settings)
  | setRoot (root : Option String)
  | pass (p : Pass)

/-- The workspace after an operation. -/
def Operation.perform (w : Workspace) : Operation → Workspace
  | .setSettings settings => { w with settings := settings }
  | .setRoot root => { w with root := root }
  | .pass p => (p.run w).1

/-- The workspace that operations lead to from the start. -/
def after (ops : List Operation) : Workspace :=
  ops.foldl Operation.perform {}

lemma after_concat (ops : List Operation) (o : Operation) :
    after (ops ++ [o]) = o.perform (after ops) := by
  rw [after, List.foldl_append]
  rfl

/-- What holds at the start, and is kept by new settings, a new root and each pass, holds after all
operations. -/
lemma after_invariant {P : Workspace → Prop} (hstart : P {})
    (hsettings : ∀ w settings, P w → P { w with settings := settings })
    (hroot : ∀ w root, P w → P { w with root := root })
    (hpass : ∀ w p w', P w → Pass.read w p = .ok w' → P w'.resolveAll.1) (ops : List Operation) :
    P (after ops) := by
  induction ops using List.reverseRecOn with
  | nil => exact hstart
  | append_singleton ops o ih =>
    rw [after_concat]
    cases o with
    | setSettings settings => exact hsettings _ settings ih
    | setRoot root => exact hroot _ root ih
    | pass p =>
      rw [Operation.perform]
      cases hread : p.read (after ops) with
      | error e =>
        rw [Pass.run_of_read_error hread]
        exact ih
      | ok w' =>
        rw [(Pass.run_of_read hread).1]
        exact hpass _ p w' ih hread

/-- The registry after a pass. -/
lemma registry_run {w w' : Workspace} {p : Pass} (h : p.read w = .ok w') :
    (p.run w).1.registry = published w.registry w'.batch := by
  rw [(Pass.run_of_read h).1, resolveAll_eq, Pass.registry_of_read h]

/-- The tokens after a pass over a batch that could be resolved. -/
lemma mem_registry_run {w w' : Workspace} {p : Pass} (h : p.read w = .ok w') {tokens : List Token}
    {failures : List Resolution.Failure} (hok : resolveBatch w'.batch = .ok (tokens, failures))
    {t : Token} : t ∈ (p.run w).1.registry.toList ↔ last? tokens t.key = some t := by
  rw [registry_run h, published, hok]
  exact Registry.mem_toList_ofList

/-! ## Passes that take in nothing new -/

/-- What is published is what a pass over the present sources publishes. -/
structure Steady (w : Workspace) : Prop where
  valid : w.registry.Valid
  registry : (published w.registry w.batch).toList = w.registry.toList
  issues : w.issues = w.loadIssues ++ batchIssues w.batch

/-- After a pass a workspace is steady. -/
lemma steady_resolveAll {w : Workspace} (h : w.registry.Valid) : Steady w.resolveAll.1 := by
  rw [resolveAll_eq]
  exact ⟨valid_published _ _, toList_republished h w.batch, rfl⟩

/-- The workspace is steady after every run. -/
lemma steady_after (ops : List Operation) : Steady (after ops) := by
  refine after_invariant ?_ ?_ ?_ ?_ ops
  · exact ⟨Registry.valid_empty, rfl, rfl⟩
  · exact fun w settings h => ⟨h.valid, h.registry, h.issues⟩
  · exact fun w root h => ⟨h.valid, h.registry, h.issues⟩
  · intro w p w' h hread
    refine steady_resolveAll ?_
    rw [Pass.registry_of_read hread]
    exact h.valid

/-- A pass that takes in nothing new changes nothing that can be seen: resolving again leaves the
published tokens and the issues, and a file that cannot be loaded leaves the sources and the
published tokens, and only its own issue of loading takes the place of an earlier one. -/
theorem idle_pass_unchanged (ops : List Operation) :
    (after ops).resolveAll.1.registry.toList = (after ops).registry.toList ∧
    (after ops).resolveAll.1.issues = (after ops).issues ∧
    ∃ others, (after ops).issues = (after ops).loadIssues ++ others ∧
      ∀ p filePath e, Pass.file? (after ops) p = some (filePath, .error e) →
        (p.run (after ops)).2 = .error e ∧
        (p.run (after ops)).1.sources = (after ops).sources ∧
        (p.run (after ops)).1.registry.toList = (after ops).registry.toList ∧
        (p.run (after ops)).1.issues =
          ((after ops).loadIssues.filter fun i => i.filePath ≠ some filePath) ++
            [loadIssue filePath e] ++ others := by
  set w := after ops
  have hsteady : Steady w := steady_after ops
  refine ⟨?_, ?_, batchIssues w.batch, hsteady.issues, ?_⟩
  · rw [resolveAll_eq]
    exact hsteady.registry
  · rw [resolveAll_eq]
    exact hsteady.issues.symm
  · intro p filePath e hfile
    obtain ⟨hstate, hanswer⟩ := Pass.run_of_read (Pass.read_of_file? hfile)
    rw [hfile] at hanswer
    -- Neither the sources nor the registry change before the pass resolves again.
    rw [hstate, resolveAll_eq]
    exact ⟨hanswer, rfl, hsteady.registry, rfl⟩

/-- A text in which `b` refers to `a`. -/
def straightText : String :=
  "\x7b\"a\":\x7b\"$value\":\"1\"\x7d,\"b\":\x7b\"$value\":\"\x7ba\x7d\"\x7d\x7d"

/-- The text is loaded. -/
def straightPass : Pass := .loadText .empty "t.json" straightText

/-- What the text leaves under `b`. -/
lemma straight_registry :
    ∃ s ∈ (after [.pass straightPass]).registry.toList, s.key = ⟨"t.json", "b"⟩ ∧
      s.value = "\x7ba\x7d" ∧ s.isResolved = true ∧ s.displayValue = "1" := by
  have hview : (straightPass.read (after [])).toOption.any (fun w =>
      (resolveBatch w.batch).toOption.any fun resolved =>
        (last? resolved.1 ⟨"t.json", "b"⟩).any fun s =>
          s.value = "\x7ba\x7d" ∧ s.isResolved = true ∧ s.displayValue = "1") = true := by
    decide +kernel
  simp only [Option.any_eq_true, toOption_eq_some, decide_eq_true_eq] at hview
  obtain ⟨w, hread, ⟨tokens, failures⟩, hok, s, hlast, hs⟩ := hview
  have hkey := (Registry.of_last?_eq_some hlast).2
  exact ⟨s, (mem_registry_run hread hok).mpr (hkey ▸ hlast), hkey, hs⟩

/-- Another text is loaded for the same file. -/
def againPass (text : String) : Pass := .loadText .empty "t.json" text

/-- A good text is loaded, and then one that is no document. -/
def faultyOps : List Operation := [.pass straightPass, .pass (againPass "?")]

/-- A file that could not be read, from what can be evaluated. -/
lemma exists_error_of_any {read : Option (String × Except Error TokenFile)} {filePath : String}
    (h : read.any fun f => f.1 = filePath ∧ f.2.toOption.isNone) :
    ∃ e, read = some (filePath, .error e) := by
  simp only [Option.any_eq_true, decide_eq_true_eq] at h
  obtain ⟨⟨path, parsed⟩, rfl, rfl, hnone⟩ := h
  cases parsed with
  | ok file => cases hnone
  | error e => exact ⟨e, rfl⟩

/-- A second text that is no document leaves the tokens of the good one, and its issue takes the
place of the first one's. -/
theorem idle_pass_unchanged_faulty :
    (after faultyOps).issues.map Issue.message =
      ["JSON parsing error: expected value at line 1 column 1"] ∧
    ∃ e, (againPass "\x7b").file? (after faultyOps) = some ("t.json", .error e) ∧
      ((againPass "\x7b").run (after faultyOps)).2 = .error e ∧
      ((againPass "\x7b").run (after faultyOps)).1.sources.length = 1 ∧
      (∃ s ∈ ((againPass "\x7b").run (after faultyOps)).1.registry.toList,
        s.key = ⟨"t.json", "b"⟩ ∧ s.displayValue = "1") ∧
      ((againPass "\x7b").run (after faultyOps)).1.issues = [loadIssue "t.json" e] := by
  obtain ⟨e, hfirst⟩ : ∃ e, (againPass "?").file? (after [.pass straightPass]) =
      some ("t.json", .error e) := exists_error_of_any (by decide +kernel)
  obtain ⟨e', hsecond⟩ : ∃ e, (againPass "\x7b").file? (after faultyOps) =
      some ("t.json", .error e) := exists_error_of_any (by decide +kernel)
  obtain ⟨-, -, _, -, hidle⟩ := idle_pass_unchanged [.pass straightPass]
  obtain ⟨-, -, hregistry, -⟩ := hidle _ _ _ hfirst
  obtain ⟨-, -, others, hissues, hidle'⟩ := idle_pass_unchanged faultyOps
  obtain ⟨hanswer, hsources, hregistry', hissues'⟩ := hidle' _ _ _ hsecond
  have hmessages : (after faultyOps).issues.map Issue.message =
      ["JSON parsing error: expected value at line 1 column 1"] := by decide +kernel
  have hload : (after faultyOps).loadIssues.map Issue.filePath = [some "t.json"] := by
    decide +kernel
  obtain ⟨i, hi, hpath⟩ := List.map_eq_singleton_iff.mp hload
  have hothers : others = [] := by
    have hlength := congrArg List.length hmessages
    rw [hissues, hi] at hlength
    simpa using hlength
  refine ⟨hmessages, e', hsecond, hanswer, ?_, ?_, ?_⟩
  · rw [hsources]
    decide +kernel
  · obtain ⟨s, hs, hkey, -, -, hdisplay⟩ := straight_registry
    rw [hregistry']
    exact ⟨s, hregistry ▸ hs, hkey, hdisplay⟩
  · rw [hissues', hi, hothers]
    simp [hpath]

/-! ## Sources -/

/-- A token file is read if it has a text that parses. -/
lemma readTokenFile_eq_ok {fs : FileSystem} {path : String} {options : TokenFile.Options}
    {file : TokenFile} :
    readTokenFile fs path options = .ok file ↔
      ∃ content, fs.readText path = .ok content ∧
        TokenFile.parse content (.ofPath path) (completeOptions fs path options) = .ok file := by
  unfold readTokenFile
  cases fs.readText path with
  | error fault => simp
  | ok content =>
    simp only [Except.ok.injEq, exists_eq_left']
    cases TokenFile.parse content (.ofPath path) (completeOptions fs path options) with
    | error e => simp [Except.mapError]
    | ok file' => rfl

lemma loadTarget_eq_ok {fs : FileSystem} {t : Target} {s : Source} :
    loadTarget fs t = .ok s ↔
      ∃ file, readTokenFile fs t.path t.options = .ok file ∧
        s = ⟨t.options.filePath, file.tokens⟩ := by
  unfold loadTarget
  cases readTokenFile fs t.path t.options with
  | error e => simp
  | ok file => simp [eq_comm]

/-- The sources after a reload come from targets that could be loaded. -/
lemma mem_sources_withFiles {w : Workspace} {fs : FileSystem} {targets : List Target} {s : Source}
    (h : s ∈ (w.withFiles fs targets).sources) : ∃ t ∈ targets, loadTarget fs t = .ok s := by
  obtain ⟨r, hr, hs⟩ := List.mem_filterMap.mp h
  obtain ⟨t, ht, rfl⟩ := List.mem_map.mp hr
  exact ⟨t, ht, toOption_eq_some.mp hs⟩

lemma mem_setSource {s s' : Source} {sources : List Source} (h : s' ∈ setSource s sources) :
    s' = s ∨ s' ∈ sources := by
  induction sources with
  | nil => exact .inl (List.mem_singleton.mp h)
  | cons t rest ih =>
    unfold setSource at h
    split_ifs at h
    · rcases List.mem_cons.mp h with rfl | h
      · exact .inl rfl
      · exact .inr (List.mem_cons_of_mem _ h)
    · rcases List.mem_cons.mp h with rfl | h
      · exact .inr (List.mem_cons_self ..)
      · exact (ih h).imp_right (List.mem_cons_of_mem _)

/-- The tokens of each source are those of some text. -/
def AsParsed (w : Workspace) : Prop :=
  ∀ s ∈ w.sources, ∃ content format options file,
    TokenFile.parse content format options = .ok file ∧ s.tokens = file.tokens

/-- What a pass reads it has parsed. -/
lemma asParsed_of_read {w w' : Workspace} {p : Pass} (h : p.read w = .ok w') (hw : AsParsed w) :
    AsParsed w' := by
  intro s hs
  rcases Pass.read_cases h with ⟨fs, targets, -, -, rfl⟩ | ⟨filePath, parsed, hfile, rfl, -⟩ |
    ⟨-, rfl⟩
  · obtain ⟨t, -, hload⟩ := mem_sources_withFiles hs
    obtain ⟨file, hread, rfl⟩ := loadTarget_eq_ok.mp hload
    obtain ⟨content, -, hparse⟩ := readTokenFile_eq_ok.mp hread
    exact ⟨_, _, _, file, hparse, rfl⟩
  · cases parsed with
    | error e => exact hw s hs
    | ok file =>
      rcases mem_setSource hs with rfl | hs
      · cases p with
        | reload fs => cases hfile
        | loadFile fs path =>
          obtain ⟨-, hread⟩ := Prod.mk.inj (Option.some.inj hfile)
          obtain ⟨content, -, hparse⟩ := readTokenFile_eq_ok.mp hread
          exact ⟨_, _, _, file, hparse, rfl⟩
        | loadText fs path text =>
          obtain ⟨-, hparse⟩ := Prod.mk.inj (Option.some.inj hfile)
          exact ⟨_, _, _, file, hparse, rfl⟩
        | resolveAll => cases hfile
      · exact hw s hs
  · exact hw s hs

/-- After every run the sources are as they were parsed. -/
lemma asParsed_after (ops : List Operation) : AsParsed (after ops) := by
  refine after_invariant ?_ ?_ ?_ ?_ ops
  · intro s hs
    cases hs
  · exact fun w settings h => h
  · exact fun w root h => h
  · intro w p w' h hread
    have hread' := asParsed_of_read hread h
    rw [resolveAll_eq]
    exact hread'

/-- Parsing resolves nothing. -/
lemma AsParsed.unresolved {w : Workspace} (h : AsParsed w) {t : Token} (ht : t ∈ w.batch) :
    t.isResolved = false := by
  obtain ⟨s, hs, ht⟩ := List.mem_flatMap.mp ht
  obtain ⟨content, format, options, file, hparse, heq⟩ := h s hs
  rw [heq] at ht
  exact (TokenFile.authored_of_parse hparse t ht).isResolved_eq

/-! ## Circular passes -/

/-- After every run the registry is consistent. -/
lemma consistent_after (ops : List Operation) :
    Resolution.Consistent (after ops).registry.toList := by
  -- Together with what it rests on: valid indexes and sources as they were parsed.
  have hall : (after ops).registry.Valid ∧ AsParsed (after ops) ∧
      Resolution.Consistent (after ops).registry.toList := by
    refine after_invariant (P := fun w =>
      w.registry.Valid ∧ AsParsed w ∧ Resolution.Consistent w.registry.toList) ?_ ?_ ?_ ?_ ops
    · exact ⟨Registry.valid_empty, asParsed_after [], by intro t ht; cases ht⟩
    · exact fun w settings h => h
    · exact fun w root h => h
    · rintro w p w' ⟨hvalid, hparsed, -⟩ hread
      have hparsed' := asParsed_of_read hread hparsed
      rw [resolveAll_eq]
      refine ⟨valid_published _ _, hparsed', ?_⟩
      refine consistent_published ?_ fun t ht => hparsed'.unresolved ht
      rw [Pass.registry_of_read hread]
      exact hvalid
  exact hall.2.2

/-- A pass fails at circular tokens only. -/
lemma resolveAll_eq_error {w : Workspace} :
    (∃ e, w.resolveAll.2 = .error e) ↔ Circular w.batch := by
  rw [← resolveBatch_eq_error, resolveAll_eq, batchResult]
  cases resolveBatch w.batch with
  | ok resolved => simp [Except.map]
  | error e => simp [Except.map]

/-- One of the operations is a pass that went well and published a token that matches `t`, resolved
to the value of `t`. -/
def Produced (ops : List Operation) (t : Token) : Prop :=
  ∃ before p rest, ops = before ++ .pass p :: rest ∧ Pass.Succeeds (after before) p ∧
    ∃ s ∈ (p.run (after before)).1.registry.toList,
      Matches s t ∧ s.isResolved = true ∧ s.resolvedValue = t.resolvedValue

/-- What a run produced stays produced in a longer one. -/
lemma Produced.concat {ops : List Operation} {s t : Token} (h : Produced ops s)
    (hmatches : Matches s t) (hval : s.resolvedValue = t.resolvedValue) (o : Operation) :
    Produced (ops ++ [o]) t := by
  obtain ⟨before, p, rest, rfl, hsucceeds, s', hs', hmatches', hres', hval'⟩ := h
  refine ⟨before, p, rest ++ [o], by simp, hsucceeds, s', hs', ?_, hres', ?_⟩
  · exact hmatches'.trans hmatches
  · exact hval'.trans hval

/-- Each resolved value was given by a pass that went well. -/
lemma produced_of_resolved (ops : List Operation) {t : Token}
    (ht : t ∈ (after ops).registry.toList) (hres : t.isResolved = true) : Produced ops t := by
  induction ops using List.reverseRecOn generalizing t with
  | nil => cases ht
  | append_singleton ops o ih =>
    rw [after_concat] at ht
    cases o with
    | setSettings settings => exact (ih ht hres).concat ⟨rfl, rfl, rfl⟩ rfl _
    | setRoot root => exact (ih ht hres).concat ⟨rfl, rfl, rfl⟩ rfl _
    | pass p =>
      rw [Operation.perform] at ht
      cases hread : p.read (after ops) with
      | error e =>
        rw [Pass.run_of_read_error hread] at ht
        exact (ih ht hres).concat ⟨rfl, rfl, rfl⟩ rfl _
      | ok w' =>
        by_cases hcircular : Circular w'.batch
        · have hvalid := (steady_after ops).valid
          rw [registry_run hread, mem_published_of_circular hcircular hvalid] at ht
          obtain ⟨t', ht', heq⟩ := ht
          rcases (eq_carryOver_iff hvalid (consistent_after ops)).mp heq with
            ⟨s, hs, hmatches, hs', rfl⟩ | ⟨-, rfl⟩
          · -- The value was there before.
            have hmatches' :
                Matches s { t' with resolvedValue := s.resolvedValue, isResolved := true } :=
              ⟨hmatches.filePath_eq, hmatches.name_eq, hmatches.value_eq⟩
            exact (ih hs hs').concat hmatches' rfl _
          · -- A token that takes nothing over is as it was parsed.
            have hmem := (List.mem_filter.mp (Registry.of_last?_eq_some ht').1).1
            have hparsed := asParsed_of_read hread (asParsed_after ops)
            rw [hparsed.unresolved hmem] at hres
            cases hres
        · cases hresult : w'.resolveAll.2 with
          | error e => exact absurd (resolveAll_eq_error.mp ⟨e, hresult⟩) hcircular
          | ok n =>
            exact ⟨ops, p, [], rfl, ⟨w', n, hread, hresult⟩, t, ht, ⟨rfl, rfl, rfl⟩, hres, rfl⟩

/-- A pass fails exactly if the tokens that it has read are circular. It then publishes, for each
file and name, the last token as it was parsed, with the value of the resolved token that was
published before for the same file, name and text, if there was one, and nothing else. So whatever
the run, each resolved value was given by a pass that went well, to a token of the same file, name
and text. -/
theorem circular_pass_carries (ops : List Operation) :
    (∀ p w', Pass.read (after ops) p = .ok w' →
      ((∃ e, w'.resolveAll.2 = .error e) ↔ Circular w'.batch) ∧
      (Circular w'.batch → ∀ u, u ∈ (p.run (after ops)).1.registry.toList ↔
        ∃ t, last? (withoutMarkers w'.batch) t.key = some t ∧ t.isResolved = false ∧
          ((∃ s ∈ (after ops).registry.toList, Matches s t ∧ s.isResolved = true ∧
              u = { t with resolvedValue := s.resolvedValue, isResolved := true }) ∨
            ((¬ ∃ s ∈ (after ops).registry.toList, Matches s t ∧ s.isResolved = true) ∧ u = t)))) ∧
    ∀ t ∈ (after ops).registry.toList, t.isResolved = true → Produced ops t := by
  refine ⟨fun p w' hread => ⟨resolveAll_eq_error, fun hcircular u => ?_⟩,
    fun t => produced_of_resolved ops⟩
  have hvalid := (steady_after ops).valid
  have hparsed := asParsed_of_read hread (asParsed_after ops)
  rw [registry_run hread, mem_published_of_circular hcircular hvalid]
  refine exists_congr fun t => and_congr_right fun ht => ?_
  have hmem := (List.mem_filter.mp (Registry.of_last?_eq_some ht).1).1
  rw [eq_carryOver_iff hvalid (consistent_after ops), hparsed.unresolved hmem]
  simp

/-- The text after an edit: `a` refers back to `b`. -/
def roundText : String :=
  "\x7b\"a\":\x7b\"$value\":\"\x7bb\x7d\"\x7d,\"b\":\x7b\"$value\":\"\x7ba\x7d\"\x7d\x7d"

/-- The edit is taken in. -/
def roundPass : Pass := .loadText .empty "t.json" roundText

/-- The edit closes a circle, and `b` keeps the value that it had before. -/
theorem circular_pass_carries_edit :
    ∃ w', roundPass.read (after [.pass straightPass]) = .ok w' ∧ Circular w'.batch ∧
      ∃ u ∈ (roundPass.run (after [.pass straightPass])).1.registry.toList,
        u.name = "b" ∧ u.isResolved = true ∧ u.displayValue = "1" := by
  have hview : (roundPass.read (after [.pass straightPass])).toOption.any (fun w' =>
      (resolveBatch w'.batch).toOption.isNone ∧
        (last? (withoutMarkers w'.batch) ⟨"t.json", "b"⟩).any fun t =>
          t.value = "\x7ba\x7d") = true := by
    decide +kernel
  simp only [Option.any_eq_true, toOption_eq_some, decide_eq_true_eq] at hview
  obtain ⟨w', hread, hnone, t, hlast, hvalue⟩ := hview
  have hcircular : Circular w'.batch := by
    rw [← resolveBatch_eq_error]
    cases hbatch : resolveBatch w'.batch with
    | error e => exact ⟨e, rfl⟩
    | ok resolved =>
      rw [hbatch] at hnone
      cases hnone
  refine ⟨w', hread, hcircular, ?_⟩
  have hkey := (Registry.of_last?_eq_some hlast).2
  obtain ⟨s, hs, hskey, hsvalue, hsres, hsdisplay⟩ := straight_registry
  have hmatches : Matches s t := by
    obtain ⟨hfile, hname⟩ := Token.key_eq_iff.mp (hskey.trans hkey.symm)
    exact ⟨hfile, hname, hsvalue.trans hvalue.symm⟩
  have hcarries := ((circular_pass_carries [.pass straightPass]).1 roundPass w' hread).2 hcircular
  have hmem := (List.mem_filter.mp (Registry.of_last?_eq_some hlast).1).1
  have hunresolved := (asParsed_of_read hread (asParsed_after [.pass straightPass])).unresolved hmem
  refine ⟨_, (hcarries _).mpr ⟨t, hkey ▸ hlast, hunresolved, .inl ⟨s, hs, hmatches, hsres, rfl⟩⟩,
    ?_, rfl, ?_⟩
  · exact (Token.key_eq_iff.mp hkey).2
  · rw [← hsdisplay]
    unfold Token.displayValue
    rw [hmatches.value_eq]

/-! ## Passes that go well -/

/-- A pass that answers has read all that it was to read, and resolved it. -/
lemma Pass.read_of_ok {w : Workspace} {p : Pass} {n : Nat} (h : (p.run w).2 = .ok n) :
    ∃ w', p.read w = .ok w' ∧ (p.run w).1 = w'.resolveAll.1 ∧ w'.resolveAll.2 = .ok n := by
  cases hread : p.read w with
  | error e =>
    rw [run_of_read_error hread] at h
    cases h
  | ok w' =>
    obtain ⟨hstate, hanswer⟩ := run_of_read hread
    rw [h] at hanswer
    refine ⟨w', rfl, hstate, ?_⟩
    split at hanswer
    · cases hanswer
    · exact hanswer.symm

/-- What is published when a batch has been resolved: each token of the expanded batch, but of those
with one key only the last. -/
lemma published_of_ok {batch : List Token} {n : Nat} (h : batchResult batch = .ok n)
    (r : Registry) :
    ∃ rest, Inheritance.expand batch = .ok (batch ++ rest) ∧
      n = (withoutMarkers (batch ++ rest)).length ∧
      (published r batch).size ≤ n ∧
      ((published r batch).size = n ↔
        ((withoutMarkers (batch ++ rest)).map Token.key).Nodup) ∧
      ∀ t ∈ withoutMarkers (batch ++ rest), ∃ s u,
        last? (withoutMarkers (batch ++ rest)) t.key = some s ∧
        (published r batch).qualified? t.name t.filePath = some u ∧ ResolvesTo s u := by
  have hcircular : ¬ Circular batch := by
    rw [← resolveBatch_eq_error]
    rintro ⟨e, herror⟩
    rw [batchResult, herror] at h
    cases h
  obtain ⟨rest, tokens, failures, hexpand, hok, hpublished, hresolves, -⟩ :=
    exists_published_of_not_circular hcircular r
  have hn : n = tokens.length := by
    rw [batchResult, hok] at h
    exact (Except.ok.inj h).symm
  have hlength : tokens.length = (withoutMarkers (batch ++ rest)).length :=
    hresolves.length_eq.symm
  refine ⟨rest, hexpand, hn.trans hlength, ?_, ?_, ?_⟩
  · rw [hpublished, hn]
    exact Registry.size_ofList_le tokens
  · rw [hpublished, hn, ← map_key_of_forall₂ hresolves]
    exact Registry.size_ofList_eq_length
  · intro t ht
    obtain ⟨s, hs⟩ := Registry.exists_last?_of_mem ht
    obtain ⟨u, hu, hsu⟩ := exists_last?_of_forall₂ hresolves hs
    refine ⟨s, u, hs, ?_, hsu⟩
    rw [hpublished, Registry.qualified?_ofList]
    exact hu

/-- A pass that answers a number has counted the tokens of the expanded batch. The registry has as
many exactly if no two of them share file and name; under each file and name that a source has it
holds the last such token of the expanded batch, which is the token of the source itself, with its
path and value, if the count is right. -/
theorem ok_pass_publishes (ops : List Operation) (p : Pass) (w : Workspace) (n : Nat)
    (h : p.run (after ops) = (w, .ok n)) :
    ∃ rest, Inheritance.expand w.batch = .ok (w.batch ++ rest) ∧
      n = (withoutMarkers (w.batch ++ rest)).length ∧
      w.registry.size ≤ n ∧
      (w.registry.size = n ↔ ((withoutMarkers (w.batch ++ rest)).map Token.key).Nodup) ∧
      ∀ source ∈ w.sources, ∀ t ∈ source.tokens, t.isExtendsMarker = false →
        ∃ s u, last? (withoutMarkers (w.batch ++ rest)) t.key = some s ∧
          w.registry.qualified? t.name t.filePath = some u ∧ ResolvesTo s u ∧
          (w.registry.size = n → s = t) := by
  obtain ⟨w', hread, hstate, hanswer⟩ := Pass.read_of_ok (congrArg Prod.snd h)
  rw [h, resolveAll_eq] at hstate
  rw [resolveAll_eq] at hanswer
  obtain ⟨rest, hexpand, hn, hle, hsize, hfound⟩ := published_of_ok hanswer w'.registry
  subst hstate
  refine ⟨rest, hexpand, hn, hle, hsize, fun source hsource t ht hmarker => ?_⟩
  have hmem : t ∈ withoutMarkers (w'.batch ++ rest) := by
    have hbatch : t ∈ w'.batch := List.mem_flatMap.mpr ⟨source, hsource, ht⟩
    refine List.mem_filter.mpr ⟨List.mem_append_left _ hbatch, ?_⟩
    rw [hmarker]
    rfl
  obtain ⟨s, u, hs, hu, hsu⟩ := hfound t hmem
  refine ⟨s, u, hs, hu, hsu, fun hcount => ?_⟩
  rw [Registry.last?_of_nodup (hsize.mp hcount) hmem] at hs
  exact (Option.some.inj hs).symm

/-- A text in which the tokens at `a`, `b` and at `a-b` have one name. -/
def sharedNameText : String :=
  "\x7b\"a\":\x7b\"b\":\x7b\"$value\":\"1\"\x7d\x7d,\"a-b\":\x7b\"$value\":\"2\"\x7d\x7d"

/-- One file with this text. -/
def sharedName : FileSystem :=
  ⟨.directory [("tokens.json", .file sharedNameText.toUTF8)], []⟩

/-- The settings name this file. -/
def sharedNameSetup : List Operation :=
  [.setSettings { tokenFiles := [.bare "tokens.json"] }]

lemma reload_sharedName_ok :
    (Pass.run (after sharedNameSetup) (.reload sharedName)).2 = .ok 2 := by
  rw [← toOption_eq_some]
  decide +kernel

theorem ok_pass_publishes_shared :
    ∃ w, Pass.run (after sharedNameSetup) (.reload sharedName) = (w, .ok 2) ∧
      ∃ rest, Inheritance.expand w.batch = .ok (w.batch ++ rest) ∧
        2 = (withoutMarkers (w.batch ++ rest)).length ∧
        w.registry.size ≤ 2 ∧
        (w.registry.size = 2 ↔ ((withoutMarkers (w.batch ++ rest)).map Token.key).Nodup) ∧
        ∀ source ∈ w.sources, ∀ t ∈ source.tokens, t.isExtendsMarker = false →
          ∃ s u, last? (withoutMarkers (w.batch ++ rest)) t.key = some s ∧
            w.registry.qualified? t.name t.filePath = some u ∧ ResolvesTo s u ∧
            (w.registry.size = 2 → s = t) := by
  have hrun : Pass.run (after sharedNameSetup) (.reload sharedName) = (_, .ok 2) :=
    Prod.ext rfl reload_sharedName_ok
  exact ⟨_, hrun, ok_pass_publishes _ _ _ _ hrun⟩

/-- The file with the shared name is loaded, and two tokens are counted. The registry has one of
them, and the other one, at `a`, `b`, cannot be read back. -/
theorem ok_pass_overwrites :
    ∃ w, Pass.run (after sharedNameSetup) (.reload sharedName) = (w, .ok 2) ∧
      w.registry.size = 1 ∧
      ∃ source ∈ w.sources, ∃ t ∈ source.tokens, t.isExtendsMarker = false ∧
        t.path = ["a", "b"] ∧ t.value = "1" ∧
        ∀ u, w.registry.qualified? t.name t.filePath = some u →
          u.path = ["a-b"] ∧ u.value = "2" := by
  have hview : (Pass.read (after sharedNameSetup) (.reload sharedName)).toOption.any (fun w' =>
      (∃ source ∈ w'.sources, ∃ t ∈ source.tokens, t.isExtendsMarker = false ∧
        t.path = ["a", "b"] ∧ t.value = "1" ∧ t.key = ⟨"tokens.json", "a-b"⟩) ∧
      (resolveBatch w'.batch).toOption.any fun resolved =>
        resolved.1.map Token.key = [⟨"tokens.json", "a-b"⟩, ⟨"tokens.json", "a-b"⟩] ∧
          (last? resolved.1 ⟨"tokens.json", "a-b"⟩).any fun u =>
            u.path = ["a-b"] ∧ u.value = "2") = true := by
    decide +kernel
  simp only [Option.any_eq_true, toOption_eq_some, decide_eq_true_eq] at hview
  obtain ⟨w', hread, ⟨source, hsource, t, ht, hmarker, hpath, hvalue, hkey⟩,
    ⟨tokens, failures⟩, hok, hkeys, u, hlast, hu⟩ := hview
  obtain ⟨hstate, -⟩ := Pass.run_of_read hread
  refine ⟨w'.resolveAll.1, Prod.ext hstate reload_sharedName_ok, ?_⟩
  have hregistry : w'.resolveAll.1.registry = .ofList tokens := by
    rw [resolveAll_eq, published, hok]
  rw [hregistry]
  refine ⟨?_, source, ?_, t, ht, hmarker, hpath, hvalue, fun u' hu' => ?_⟩
  · rw [Registry.size_ofList, hkeys]
    rfl
  · rw [resolveAll_eq]
    exact hsource
  · have hlast' : last? tokens t.key = some u' := (Registry.qualified?_ofList ..).symm.trans hu'
    rw [hkey, hlast] at hlast'
    rwa [← Option.some.inj hlast']

end Workspace

end DesignTokens
