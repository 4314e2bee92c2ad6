import DesignTokens.Proofs.EditorRuns

/-!
# The diagnostics that were sent last

The server sends the diagnostics of a document when the document changes, and those of all open
documents when the tokens may have changed. What it has sent last for a document is always what the
document has to show now, and nothing for a document that is closed (`Fresh`): each event sends what
it makes out of date (`Fresh.perform`). So diagnostics are never stale (`diagnostics_current`).
-/

namespace DesignTokens.Editor

open Event (performAll)

/-- What a message publishes under an address: diagnostics, and the version of the document. -/
def Outgoing.publication? (uri : Uri) : Outgoing → Option (List Diagnostic × Option Int)
  | .log _ _ => none
  | .publish u diagnostics version => if u = uri then some (diagnostics, version) else none

/-- What was published last under an address. -/
def lastPublished? (sent : List Outgoing) (uri : Uri) : Option (List Diagnostic × Option Int) :=
  (sent.filterMap (Outgoing.publication? uri)).getLast?

/-- What was published last counts. -/
lemma lastPublished?_append (sent sent' : List Outgoing) (uri : Uri) :
    lastPublished? (sent ++ sent') uri =
      (lastPublished? sent' uri).or (lastPublished? sent uri) := by
  rw [lastPublished?, List.filterMap_append, List.getLast?_append]
  rfl

/-- The line of the log about a reload publishes nothing. -/
lemma lastPublished?_reloadMessage (result : Except Error Nat) (sent : List Outgoing) (uri : Uri) :
    lastPublished? (Server.reloadMessage result :: sent) uri = lastPublished? sent uri := by
  cases result with
  | ok count => rfl
  | error e => rfl

/-- What the document under an address has to show, if it is open. -/
def Server.shown? (s : Server) (uri : Uri) : Option (List Diagnostic × Option Int) :=
  (s.documents.get? uri).map fun d => (s.documentDiagnostics uri d, some d.version)

lemma shown?_eq_none {s : Server} {uri : Uri} :
    s.shown? uri = none ↔ s.documents.get? uri = none :=
  Option.map_eq_none_iff

lemma filterMap_publish (s : Server) (uri u : Uri) :
    (s.publish uri).filterMap (Outgoing.publication? u) =
      if uri = u then (s.shown? u).toList else [] := by
  unfold Server.publish Server.shown?
  by_cases h : uri = u
  · subst h
    rw [if_pos rfl]
    cases s.documents.get? uri with
    | none => rfl
    | some d => simp [Outgoing.publication?]
  · rw [if_neg h]
    cases s.documents.get? uri with
    | none => rfl
    | some d => simp [Outgoing.publication?, h]

/-- Publishing a document shows its diagnostics and no others. -/
lemma lastPublished?_publish (s : Server) (uri u : Uri) :
    lastPublished? (s.publish uri) u = if uri = u then s.shown? u else none := by
  rw [lastPublished?, filterMap_publish]
  split_ifs
  · cases s.shown? u with
    | none => rfl
    | some p => rfl
  · rfl

lemma mem_uris_of_get? {ds : Documents} {uri : Uri} {d : Document} (h : ds.get? uri = some d) :
    uri ∈ ds.uris := by
  obtain ⟨e, he, -⟩ := Option.map_eq_some_iff.mp h
  have hkey : e.1 = uri := by simpa using List.find?_some he
  exact List.mem_map.mpr ⟨e, List.mem_of_find?_eq_some he, hkey⟩

/-- To publish all documents publishes each as it is now. -/
lemma lastPublished?_publishAll (s : Server) (uri : Uri) :
    lastPublished? s.publishAll uri = s.shown? uri := by
  -- Whatever is published under the address is what its document shows.
  have hall : ∀ p ∈ s.publishAll.filterMap (Outgoing.publication? uri), s.shown? uri = some p := by
    intro p hp
    rw [Server.publishAll, List.filterMap_flatMap, List.mem_flatMap] at hp
    obtain ⟨u, -, hp⟩ := hp
    rw [filterMap_publish] at hp
    split_ifs at hp
    · exact Option.mem_toList.mp hp
    · cases hp
  cases hlast : lastPublished? s.publishAll uri with
  | some p => exact (hall p (List.mem_of_getLast? hlast)).symm
  | none =>
    rw [eq_comm, shown?_eq_none, Option.eq_none_iff_forall_ne_some]
    intro d hd
    -- An open document would have been published.
    have hmem : (s.documentDiagnostics uri d, some d.version) ∈
        s.publishAll.filterMap (Outgoing.publication? uri) := by
      rw [Server.publishAll, List.filterMap_flatMap, List.mem_flatMap]
      refine ⟨uri, mem_uris_of_get? hd, ?_⟩
      rw [filterMap_publish, if_pos rfl, Option.mem_toList, Server.shown?, hd]
      rfl
    rw [lastPublished?, List.getLast?_eq_none_iff] at hlast
    rw [hlast] at hmem
    cases hmem

/-! ## Each event sends what it makes out of date -/

/-- What was published last for each document is what the document shows; under other addresses
nothing was published, or it was withdrawn. -/
def Fresh (s : Server) (sent : List Outgoing) : Prop :=
  ∀ uri, lastPublished? sent uri = s.shown? uri ∨
    (s.documents.get? uri = none ∧ lastPublished? sent uri = some ([], none))

/-- What is published is as it should be, and where nothing is published nothing has changed. -/
lemma Fresh.append {s s' : Server} {sent out : List Outgoing} (h : Fresh s sent)
    (hout : ∀ uri, (∃ p, lastPublished? out uri = some p ∧ s'.shown? uri = some p) ∨
      (lastPublished? out uri = some ([], none) ∧ s'.documents.get? uri = none) ∨
      (lastPublished? out uri = none ∧ s'.shown? uri = s.shown? uri)) :
    Fresh s' (sent ++ out) := by
  intro uri
  rw [lastPublished?_append]
  rcases hout uri with ⟨p, hp, hshown⟩ | ⟨hempty, hclosed⟩ | ⟨hnone, hsame⟩
  · rw [hp, hshown]
    exact .inl rfl
  · rw [hempty]
    exact .inr ⟨hclosed, rfl⟩
  · rw [hnone, Option.none_or, hsame, ← shown?_eq_none, hsame, shown?_eq_none]
    exact h uri

/-- All documents are published, and none was closed. -/
lemma Fresh.publishAll {s s' : Server} {sent : List Outgoing} (h : Fresh s sent)
    (hopen : ∀ uri, s'.documents.get? uri = none → s.documents.get? uri = none) :
    Fresh s' (sent ++ s'.publishAll) := by
  refine h.append fun uri => ?_
  rw [lastPublished?_publishAll]
  cases hshown : s'.shown? uri with
  | some p => exact .inl ⟨p, rfl, rfl⟩
  | none =>
    have hclosed := hopen uri (shown?_eq_none.mp hshown)
    exact .inr (.inr ⟨rfl, (shown?_eq_none.mpr hclosed).symm⟩)

/-- A reload publishes all documents that are open. -/
lemma Fresh.reload {s : Server} {sent : List Outgoing} (h : Fresh s sent) (fs : FileSystem) :
    Fresh (s.reload fs).1 (sent ++ (s.reload fs).2) := by
  have hall : Fresh (s.reload fs).1 (sent ++ (s.reload fs).1.publishAll) :=
    h.publishAll fun _ hclosed => hclosed
  intro uri
  have hsent : lastPublished? (s.reload fs).2 uri =
      lastPublished? (s.reload fs).1.publishAll uri := lastPublished?_reloadMessage ..
  rw [lastPublished?_append, hsent, ← lastPublished?_append]
  exact hall uri

/-- The text of a document is taken in, after it was put into the documents. -/
lemma Fresh.takeText {s : Server} {sent : List Outgoing} (h : Fresh s sent) (fs : FileSystem)
    (uri : Uri) (text : String) {ds : Documents}
    (hothers : ∀ u, uri ≠ u → ds.get? u = s.documents.get? u)
    (hopen : ds.get? uri = none → s.documents.get? uri = none) :
    Fresh (Server.takeText { s with documents := ds } fs uri text).1
      (sent ++ (Server.takeText { s with documents := ds } fs uri text).2) := by
  have hkept : ∀ u, ds.get? u = none → s.documents.get? u = none := by
    intro u hu
    by_cases hne : uri = u
    · subst hne
      exact hopen hu
    · rw [← hothers u hne]
      exact hu
  unfold Server.takeText
  cases Server.tokenFilePath? { s with documents := ds } uri with
  | some path => exact h.publishAll hkept
  | none =>
    -- The tokens stay as they are, so the other documents do.
    refine h.append fun u => ?_
    rw [lastPublished?_publish]
    by_cases hne : uri = u
    · subst hne
      rw [if_pos rfl]
      cases hshown : Server.shown? { s with documents := ds } uri with
      | some p => exact .inl ⟨p, rfl, rfl⟩
      | none =>
        have hclosed := hopen (shown?_eq_none.mp hshown)
        exact .inr (.inr ⟨rfl, (shown?_eq_none.mpr hclosed).symm⟩)
    · rw [if_neg hne]
      refine .inr (.inr ⟨rfl, ?_⟩)
      unfold Server.shown?
      rw [hothers u hne]
      rfl

/-- After an event what is shown is fresh if it was before. -/
lemma Fresh.perform {s : Server} {sent : List Outgoing} (h : Fresh s sent) (fs : FileSystem)
    (e : Event) : Fresh (e.perform fs s).1 (sent ++ (e.perform fs s).2) := by
  cases e with
  | start root given =>
    -- A root and settings are not shown before files are loaded.
    rw [Event.perform, List.append_nil]
    exact h
  | ready => exact h.reload fs
  | configured given =>
    have hconfigured : Fresh (s.configure fs given) sent := h
    exact hconfigured.reload fs
  | opened uri d =>
    refine h.takeText fs uri d.text (fun u hne => ?_) fun hnone => ?_
    · rw [Documents.get?_openAs, if_neg hne]
    · rw [Documents.get?_openAs, if_pos rfl] at hnone
      cases hnone
  | changed uri text version =>
    refine h.takeText fs uri text (fun u hne => ?_) fun hnone => ?_
    · rw [Documents.get?_update, if_neg hne]
    · rw [Documents.get?_update, if_pos rfl] at hnone
      exact Option.map_eq_none_iff.mp hnone
  | closed uri =>
    refine h.append fun u => ?_
    have hout : lastPublished? (s.closeDocument uri).2 u =
        if uri = u then some ([], none) else none := by
      unfold lastPublished? Server.closeDocument
      by_cases hne : uri = u
      · simp [Outgoing.publication?, hne]
      · simp [Outgoing.publication?, hne]
    have hdocument : (s.closeDocument uri).1.documents.get? u =
        if uri = u then none else s.documents.get? u := Documents.get?_close ..
    rw [Event.perform, hout]
    by_cases hne : uri = u
    · rw [if_pos hne] at hdocument ⊢
      exact .inr (.inl ⟨rfl, hdocument⟩)
    · rw [if_neg hne] at hdocument ⊢
      refine .inr (.inr ⟨rfl, ?_⟩)
      rw [Server.shown?, hdocument]
      rfl

/-- What is shown is fresh after every run. -/
lemma fresh_performAll (events : List (FileSystem × Event)) :
    Fresh (performAll events).1 (performAll events).2 := by
  refine Event.performAll_invariant ?_ ?_ events
  · exact fun uri => .inl rfl
  · exact fun fs s sent e h => h.perform fs e

/-! ## Runs of a session -/

/-- What is shown is fresh after every exchange. -/
lemma fresh_exchange (incoming : List Incoming) :
    Fresh (exchange incoming).server (exchange incoming).sent := by
  have hfresh := fresh_performAll (exchange incoming).events
  rwa [← exchange_eq] at hfresh

/-- An open document was published as it is. -/
lemma lastPublished?_of_open {incoming : List Incoming} {uri : Uri} {d : Document}
    (h : (exchange incoming).server.documents.get? uri = some d) :
    lastPublished? (exchange incoming).sent uri =
      some ((exchange incoming).server.documentDiagnostics uri d, some d.version) := by
  rcases fresh_exchange incoming uri with hlast | ⟨hclosed, -⟩
  · rw [hlast, Server.shown?, h]
    rfl
  · rw [h] at hclosed
    cases hclosed

/-- What was sent stays sent. -/
lemma sent_mono {earlier incoming : List Incoming} (h : earlier <+: incoming) :
    (exchange earlier).sent <+: (exchange incoming).sent := by
  obtain ⟨rest, rfl⟩ := h
  induction rest using List.reverseRecOn with
  | nil => simp
  | append_singleton rest i ih =>
    rw [← List.append_assoc, exchange_concat]
    exact ih.trans (List.prefix_append ..)

/-- After each message, whatever the messages and the files: the documents are those that the editor
has; for each open document the diagnostics that were sent last are those of the present registry,
text and issues, with the present version; and under each address at which a document was open and
is not any more, none are left. -/
theorem diagnostics_current (incoming : List Incoming) (uri : Uri) :
    (exchange incoming).server.documents.get? uri =
      editorDocument? (exchange incoming).events uri ∧
    (∀ d, (exchange incoming).server.documents.get? uri = some d →
      lastPublished? (exchange incoming).sent uri =
        some (diagnostics (exchange incoming).workspace.registry d.text
          ((exchange incoming).server.documentIssues uri), some d.version)) ∧
    ((∃ earlier, earlier <+: incoming ∧ (exchange earlier).server.documents.get? uri ≠ none) →
      (exchange incoming).server.documents.get? uri = none →
      lastPublished? (exchange incoming).sent uri = some ([], none)) := by
  refine ⟨?_, fun d hd => lastPublished?_of_open hd, ?_⟩
  · rw [← documents_performAll, ← exchange_eq]
  · rintro ⟨earlier, hearlier, hopen⟩ hclosed
    obtain ⟨d, hd⟩ := Option.ne_none_iff_exists'.mp hopen
    obtain ⟨rest, hrest⟩ := sent_mono hearlier
    rcases fresh_exchange incoming uri with hlast | ⟨-, hlast⟩
    · -- The document was published when it was open.
      rw [shown?_eq_none.mpr hclosed, ← hrest, lastPublished?_append, Option.or_eq_none_iff,
        lastPublished?_of_open hd] at hlast
      cases hlast.2
    · exact hlast

/-- A token file with a faulty text and another document are opened, and the latter is closed. -/
def faultyRun (file : String) : List Incoming :=
  [startMessage [file], readyMessage, openMessage "file:///ws/tokens.json" "?",
    openMessage "file:///ws/app.css" "a \x7b\x7d", closeMessage "file:///ws/app.css"].map
      fun m => ⟨.empty, m⟩

/-- The open file shows the issue of its text, and the other document shows nothing any more. -/
theorem diagnostics_current_faulty :
    (exchange (faultyRun "tokens.json")).server.documentIssues (addressOf "tokens.json") ≠ [] ∧
    lastPublished? (exchange (faultyRun "tokens.json")).sent (addressOf "tokens.json") =
      some (diagnostics (exchange (faultyRun "tokens.json")).workspace.registry "?"
        ((exchange (faultyRun "tokens.json")).server.documentIssues (addressOf "tokens.json")),
        some 1) ∧
    lastPublished? (exchange (faultyRun "tokens.json")).sent (addressOf "app.css") =
      some ([], none) := by
  have hview : (exchange (faultyRun "tokens.json")).server.documentIssues
        (addressOf "tokens.json") ≠ [] ∧
      (exchange (faultyRun "tokens.json")).server.documents.get? (addressOf "tokens.json") =
        some ⟨"?", 1, "json"⟩ ∧
      (exchange (faultyRun "tokens.json")).server.documents.get? (addressOf "app.css") = none := by
    decide +kernel
  have hopened : (exchange ((faultyRun "tokens.json").take 4)).server.documents.get?
      (addressOf "app.css") ≠ none := by
    decide +kernel
  generalize faultyRun "tokens.json" = incoming at *
  obtain ⟨hissues, htokens, hcss⟩ := hview
  exact ⟨hissues, (diagnostics_current incoming _).2.1 _ htokens,
    (diagnostics_current incoming _).2.2 ⟨_, List.take_prefix 4 _, hopened⟩ hcss⟩

/-! ## The issues of a file -/

/-- The document of a token file lists, among its diagnostics, the issues of no file, and all issues
of the file if the settings spell the path of the file as the address of the document does. If they
spell it in another way, it lists none of them. An issue is listed as an error with its message. -/
theorem open_file_issues (incoming : List Incoming) (uri : Uri) (d : Document) (path : String)
    (t : Target) (hopen : (exchange incoming).server.documents.get? uri = some d)
    (hpath : uri.filePath? = some path) (ht : t ∈ (exchange incoming).workspace.targets)
    (hsame : Path.same t.path path = true) :
    ∃ listed : List Issue,
      lastPublished? (exchange incoming).sent uri =
        some (listed.map ofIssue ++
          (usages d.text).flatMap (ofUsage (exchange incoming).workspace.registry),
          some d.version) ∧
      (∀ i ∈ listed, (ofIssue i).severity = .error ∧ (ofIssue i).message = i.message) ∧
      listed.filter (fun i => i.filePath = none) =
        (exchange incoming).workspace.issues.filter (fun i => i.filePath = none) ∧
      listed.filter (fun i => i.filePath = some t.options.filePath) =
        if t.path = path then
          (exchange incoming).workspace.issues.filter fun i => i.filePath = some t.options.filePath
        else [] := by
  have htoken : (exchange incoming).server.documentIssues uri =
      Server.issuesFor (exchange incoming).workspace.issues path := by
    have hfile : (exchange incoming).server.workspace.isTokenFile path = true :=
      Workspace.isTokenFile_of_mem ht hsame
    rw [Server.documentIssues, Server.tokenFilePath?, hpath]
    simp only [hfile, if_true]
    rfl
  have hknown : t.options.filePath = t.path := by
    obtain ⟨ops, hops⟩ := exists_operations (exchange incoming).events
    rw [← exchange_eq] at hops
    have ht' : t ∈ (Workspace.after ops).targets := hops ▸ ht
    exact (Workspace.inPlace_after ops).targets t ht'
  refine ⟨Server.issuesFor (exchange incoming).workspace.issues path, ?_,
    fun i _ => ⟨rfl, rfl⟩, ?_, ?_⟩
  · rw [lastPublished?_of_open hopen, Server.documentDiagnostics, htoken]
    rfl
  · rw [Server.issuesFor, List.filter_filter]
    refine List.filter_congr fun i _ => ?_
    cases i.filePath with
    | none => rfl
    | some file => rfl
  · rw [Server.issuesFor, List.filter_filter, hknown]
    split_ifs with hspelled
    · subst hspelled
      refine List.filter_congr fun i _ => ?_
      cases i.filePath with
      | none => rfl
      | some file => simp
    · rw [List.filter_eq_nil_iff]
      intro i _
      cases i.filePath with
      | none => simp
      | some file =>
        have hne : file = t.path → file ≠ path := fun heq => heq ▸ hspelled
        simpa using hne

/-- The settings name the file as its address does, and the issue of its text is listed. -/
theorem open_file_issues_faulty :
    ∃ t ∈ (exchange (faultyRun "tokens.json")).workspace.targets,
      Path.same t.path "/ws/tokens.json" = true ∧ t.path = "/ws/tokens.json" ∧
      ∃ listed : List Issue,
        lastPublished? (exchange (faultyRun "tokens.json")).sent (addressOf "tokens.json") =
          some (listed.map ofIssue ++ (usages "?").flatMap
            (ofUsage (exchange (faultyRun "tokens.json")).workspace.registry), some 1) ∧
        listed.filter (fun i => i.filePath = some t.options.filePath) =
          (exchange (faultyRun "tokens.json")).workspace.issues.filter
            (fun i => i.filePath = some t.options.filePath) ∧
        ∃ i ∈ listed, (ofIssue i).severity = .error ∧
          (ofIssue i).message = "JSON parsing error: expected value at line 1 column 1" := by
  have hview : (exchange (faultyRun "tokens.json")).server.documents.get?
        (addressOf "tokens.json") = some ⟨"?", 1, "json"⟩ ∧
      (exchange (faultyRun "tokens.json")).workspace.targets.any (fun t =>
        Path.same t.path "/ws/tokens.json" ∧ t.path = "/ws/tokens.json" ∧
        ((exchange (faultyRun "tokens.json")).workspace.issues.filter
          (fun i => i.filePath = some t.options.filePath)).map Issue.message =
            ["JSON parsing error: expected value at line 1 column 1"]) = true := by
    decide +kernel
  have hpath : (addressOf "tokens.json").filePath? = some "/ws/tokens.json" := by decide +kernel
  generalize faultyRun "tokens.json" = incoming at *
  obtain ⟨hopen, htarget⟩ := hview
  obtain ⟨t, ht, htarget⟩ := List.any_eq_true.mp htarget
  obtain ⟨hsame, hspelled, hissues⟩ := of_decide_eq_true htarget
  obtain ⟨listed, hlast, hshown, -, hlisted⟩ :=
    open_file_issues incoming _ _ _ t hopen hpath ht hsame
  rw [if_pos hspelled] at hlisted
  obtain ⟨i, hi, hmessage⟩ := List.map_eq_singleton_iff.mp hissues
  have hmem : i ∈ listed := by
    have hfiltered : i ∈ listed.filter fun i => i.filePath = some t.options.filePath := by
      rw [hlisted, hi]
      exact List.mem_singleton_self i
    exact (List.mem_filter.mp hfiltered).1
  obtain ⟨hseverity, htext⟩ := hshown i hmem
  exact ⟨t, ht, hsame, hspelled, listed, hlast, hlisted, i, hmem, hseverity, htext.trans hmessage⟩

/-- The settings name the file with a point in its path. It is known as a token file all the same,
and its text has an issue, but the document shows nothing. -/
theorem respelled_file_shows_nothing :
    (exchange (faultyRun "./tokens.json")).server.documents.get? (addressOf "tokens.json") =
      some ⟨"?", 1, "json"⟩ ∧
    (addressOf "tokens.json").filePath? = some "/ws/tokens.json" ∧
    (∃ t ∈ (exchange (faultyRun "./tokens.json")).workspace.targets,
      Path.same t.path "/ws/tokens.json" = true ∧
      ∃ i ∈ (exchange (faultyRun "./tokens.json")).workspace.issues,
        i.filePath = some t.options.filePath) ∧
    lastPublished? (exchange (faultyRun "./tokens.json")).sent (addressOf "tokens.json") =
      some ([], some 1) := by
  have hview : (exchange (faultyRun "./tokens.json")).server.documents.get?
        (addressOf "tokens.json") = some ⟨"?", 1, "json"⟩ ∧
      (exchange (faultyRun "./tokens.json")).server.documentIssues (addressOf "tokens.json") = [] ∧
      (∃ t ∈ (exchange (faultyRun "./tokens.json")).workspace.targets,
        Path.same t.path "/ws/tokens.json" = true ∧
        ∃ i ∈ (exchange (faultyRun "./tokens.json")).workspace.issues,
          i.filePath = some t.options.filePath) := by
    decide +kernel
  have hpath : (addressOf "tokens.json").filePath? = some "/ws/tokens.json" := by decide +kernel
  have husages : usages "?" = [] := by decide +kernel
  generalize faultyRun "./tokens.json" = incoming at *
  obtain ⟨hopen, hnone, htarget⟩ := hview
  refine ⟨hopen, hpath, htarget, ?_⟩
  rw [lastPublished?_of_open hopen, Server.documentDiagnostics, hnone, diagnostics, husages]
  rfl

end DesignTokens.Editor
