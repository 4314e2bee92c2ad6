import DesignTokens.Editor.Session
import DesignTokens.Proofs.RegistryContents

/-!
# Runs of a session

A message tells the server of at most one event (`Event.ofMessage?`), and what the server does at a
message is what it does at this event (`Session.advance_eq`). So a run of messages comes down to the
list of its events (`exchange_eq`): what one event keeps, every run keeps.

* The open documents are those that the events say (`documents_performAll`).
* The workspace is changed by settings, a root and passes only, so all that is known about runs of a
  workspace holds in a session (`exists_operations`).
-/

namespace DesignTokens.Editor

/-! ## Events -/

/-- A message, and the files as they are when it is handled. -/
structure Incoming where
  files : FileSystem
  message : Message

/-- What the editor tells the server. -/
inductive Event where
  /-- The session starts, with a root and settings. -/
  | start (root : Option String) (given : Json.Value)
  | ready
  | configured (given : Json.Value)
  | opened (uri : Uri) (d : Document)
  | changed (uri : Uri) (text : String) (version : Int)
  | closed (uri : Uri)

namespace Event

open Session (withParams)

/-- The server after an event, and what it sends. -/
def perform (fs : FileSystem) (s : Server) : Event → Server × List Outgoing
  | .start root given => (s.start fs root given, [])
  | .ready => s.reload fs
  | .configured given => (s.configure fs given).reload fs
  | .opened uri d => s.openDocument fs uri d
  | .changed uri text version => s.changeDocument fs uri text version
  | .closed uri => s.closeDocument uri

/-- The event of a notification. Of several changes the last one counts. -/
def ofNotification? (m : Message) : Option Event :=
  match m.method with
  | "initialized" => (withParams m Params.ready).toOption.map fun _ => .ready
  | "workspace/didChangeConfiguration" =>
    (withParams m Params.configuration).toOption.map .configured
  | "textDocument/didOpen" => (withParams m Params.opened).toOption.map fun p => .opened p.1 p.2
  | "textDocument/didChange" =>
    (withParams m Params.changed).toOption.bind fun c =>
      c.texts.getLast?.map fun text => .changed c.uri text c.version
  | "textDocument/didClose" => (withParams m Params.closed).toOption.map .closed
  | _ => none

/-- The notifications that tell of events. -/
def methods : List String :=
  ["initialized", "workspace/didChangeConfiguration", "textDocument/didOpen",
    "textDocument/didChange", "textDocument/didClose"]

/-- A method that is not known gives no event. -/
lemma ofNotification?_of_notMem {m : Message} (h : m.method ∉ methods) :
    ofNotification? m = none := by
  unfold ofNotification?
  split
  all_goals simp_all [methods]

/-- The event that a message tells of in a phase of the session. -/
def ofMessage? (phase : Phase) (m : Message) : Option Event :=
  match phase with
  | .uninitialized =>
    if m.method = "initialize" ∧ m.id.isSome then
      (withParams m Params.start).toOption.map fun p =>
        .start (p.root?.bind Uri.filePath?) (p.settings.getD .null)
    else none
  | .initialized => if m.id.isSome then none else ofNotification? m
  | .shutDown => none
  | .exited => none

end Event

/-- The session after a message, and what the server sends on its own. -/
def Session.advance (s : Session) (i : Incoming) : Session × List Outgoing :=
  (s.handle i.files i.message).elim (s, []) fun r => (r.1, r.2.outgoing)

namespace Session

/-- The server after a message, and what it sends. -/
def outcome (r : Session × Reply) : Server × List Outgoing := (r.1.server, r.2.outgoing)

/-- What the server does at an event, if there is one. -/
def reaction (s : Session) (fs : FileSystem) (e : Option Event) : Server × List Outgoing :=
  e.elim (s.server, []) (Event.perform fs s.server)

/-- The first message has the outcome of its event. -/
lemma outcome_beginSession (s : Session) (fs : FileSystem) {m : Message}
    (hm : m.method = "initialize") :
    outcome (s.beginSession fs m) = s.reaction fs (Event.ofMessage? s.phase m) := by
  unfold beginSession Event.ofMessage?
  cases hphase : s.phase with
  | uninitialized =>
    cases hid : m.id with
    | none => simp [outcome, reaction]
    | some id =>
      cases hparams : withParams m Params.start with
      | error refusal => simp [hm, Except.toOption, outcome, reaction]
      | ok p => simp [hm, Except.toOption, outcome, reaction, Event.perform]
  | initialized => simp [Event.ofNotification?, hm, outcome, reaction]
  | shutDown => rfl
  | exited => rfl

lemma outcome_shutdown (s : Session) (fs : FileSystem) {m : Message} (hm : m.method = "shutdown") :
    outcome (s.shutdown m) = s.reaction fs (Event.ofMessage? s.phase m) := by
  unfold shutdown Event.ofMessage?
  cases hphase : s.phase with
  | uninitialized => simp [hm, outcome, reaction]
  | initialized => simp [Event.ofNotification?, hm, outcome, reaction]
  | shutDown => rfl
  | exited => rfl

/-- What is done with parameters is done at the event that they tell of. -/
lemma getD_map_eq {α : Type} {unchanged : Server × List Outgoing}
    {perform : Event → Server × List Outgoing} {f : α → Server × List Outgoing}
    {g : α → Option Event} (params : Except Refusal α)
    (h : ∀ a, f a = (g a).elim unchanged perform) :
    (params.map f).toOption.getD unchanged = (params.toOption.bind g).elim unchanged perform := by
  cases params with
  | error refusal => rfl
  | ok a => exact h a

/-- A notification that the server takes does what its event does. -/
lemma event?_spec {m : Message}
    {event : FileSystem → Server → Message → Except Refusal (Server × List Outgoing)}
    (h : event? m.method = some event) (fs : FileSystem) (s : Server) :
    (event fs s m).toOption.getD (s, []) =
      (Event.ofNotification? m).elim (s, []) (Event.perform fs s) := by
  unfold event? at h
  split at h
  · next hm =>
    cases h
    simp only [Event.ofNotification?, hm, Option.map_eq_bind]
    exact getD_map_eq _ fun _ => rfl
  · next hm =>
    cases h
    simp only [Event.ofNotification?, hm, Option.map_eq_bind]
    exact getD_map_eq _ fun _ => rfl
  · next hm =>
    cases h
    simp only [Event.ofNotification?, hm, Option.map_eq_bind]
    exact getD_map_eq _ fun _ => rfl
  · next hm =>
    cases h
    simp only [Event.ofNotification?, hm]
    refine getD_map_eq _ fun c => ?_
    cases c.texts.getLast? with
    | none => rfl
    | some text => rfl
  · next hm =>
    cases h
    simp only [Event.ofNotification?, hm, Option.map_eq_bind]
    exact getD_map_eq _ fun _ => rfl
  · next h₁ h₂ h₃ h₄ h₅ =>
    have hmem : m.method ∉ Event.methods := by
      simp only [Event.methods, List.mem_cons, List.not_mem_nil, or_false, not_or]
      exact ⟨h₁, h₂, h₃, h₄, h₅⟩
    split_ifs at h
    cases h
    rw [Event.ofNotification?_of_notMem hmem]
    rfl

/-- The server takes each of these notifications, and no question has its name. -/
lemma event?_of_mem : ∀ method ∈ Event.methods,
    (event? method).isSome = true ∧ question? method = none := by
  simp only [Event.methods, List.forall_mem_cons]
  exact ⟨⟨rfl, rfl⟩, ⟨rfl, rfl⟩, ⟨rfl, rfl⟩, ⟨rfl, rfl⟩, ⟨rfl, rfl⟩, List.forall_mem_nil _⟩

/-- What the server does not take as a notification is no event, and neither is a question. -/
lemma ofNotification?_eq_none {m : Message}
    (h : event? m.method = none ∨ (question? m.method).isSome = true) :
    Event.ofNotification? m = none := by
  refine Event.ofNotification?_of_notMem fun hmem => ?_
  obtain ⟨hevent, hquestion⟩ := event?_of_mem _ hmem
  rcases h with h | h
  · simp [h] at hevent
  · simp [hquestion] at h

/-- Every other message has the outcome of its event. -/
lemma outcome_dispatch (s : Session) (fs : FileSystem) {m : Message}
    (hm : m.method ≠ "initialize") :
    outcome (s.dispatch fs m) = s.reaction fs (Event.ofMessage? s.phase m) := by
  unfold dispatch Event.ofMessage?
  split
  · next hquestion hevent =>
    have hnone := ofNotification?_eq_none (.inl hevent)
    cases s.phase <;> simp [hm, hnone, outcome, reaction]
  · next question hquestion =>
    have hnone := ofNotification?_eq_none (.inr (by rw [hquestion]; rfl))
    cases s.phase <;> simp [hm, hnone, outcome, reaction]
  · next event hquestion hevent =>
    have hspec := event?_spec hevent fs s.server
    cases s.phase with
    | uninitialized => simp [hm, outcome, reaction]
    | initialized =>
      cases hid : m.id with
      | some id => simp [outcome, reaction]
      | none =>
        simp only [ne_eq, not_true_eq_false, if_false, Option.isSome_none, Bool.false_eq_true]
        cases hanswer : event fs s.server m with
        | error refusal =>
          rw [hanswer] at hspec
          exact hspec
        | ok r =>
          rw [hanswer] at hspec
          exact hspec
    | shutDown => rfl
    | exited => rfl

/-- A message does what the server does at the event that it tells of. -/
lemma advance_eq (s : Session) (i : Incoming) :
    ((s.advance i).1.server, (s.advance i).2) =
      s.reaction i.files (Event.ofMessage? s.phase i.message) := by
  unfold advance handle
  by_cases hexited : s.phase = .exited
  · rw [if_pos hexited, hexited]
    rfl
  · rw [if_neg hexited]
    split
    · next hm => exact outcome_beginSession s i.files hm
    · next hm => exact outcome_shutdown s i.files hm
    · next hm =>
      cases hphase : s.phase <;>
        simp [Event.ofMessage?, Event.ofNotification?, hm, reaction]
    · next hm _ _ => exact outcome_dispatch s i.files hm

end Session

/-! ## Runs -/

/-- The server after events, each with the files at the time, and all that it has sent. -/
def Event.performAll (events : List (FileSystem × Event)) : Server × List Outgoing :=
  events.foldl (fun r e => ((e.2.perform e.1 r.1).1, r.2 ++ (e.2.perform e.1 r.1).2)) ({}, [])

/-- A session with what has happened in it. -/
structure Exchange where
  session : Session := {}
  /-- What the server has sent on its own. -/
  sent : List Outgoing := []
  /-- What the messages told of, each with the files at the time. -/
  events : List (FileSystem × Event) := []

namespace Exchange

/-- One more message. -/
def next (x : Exchange) (i : Incoming) : Exchange :=
  { session := (x.session.advance i).1
    sent := x.sent ++ (x.session.advance i).2
    events := x.events ++
      ((Event.ofMessage? x.session.phase i.message).map fun e => (i.files, e)).toList }

/-- The server of a session. -/
def server (x : Exchange) : Server := x.session.server

/-- The workspace of a session. -/
def workspace (x : Exchange) : Workspace := x.session.server.workspace

end Exchange

/-- What messages lead to from the start. -/
def exchange (incoming : List Incoming) : Exchange :=
  incoming.foldl Exchange.next {}

lemma exchange_concat (incoming : List Incoming) (i : Incoming) :
    exchange (incoming ++ [i]) = (exchange incoming).next i := by
  rw [exchange, List.foldl_append]
  rfl

lemma Event.performAll_concat (events : List (FileSystem × Event)) (fs : FileSystem) (e : Event) :
    performAll (events ++ [(fs, e)]) =
      ((e.perform fs (performAll events).1).1,
        (performAll events).2 ++ (e.perform fs (performAll events).1).2) := by
  rw [performAll, List.foldl_append]
  rfl

/-- A session is where its events lead. -/
lemma exchange_eq (incoming : List Incoming) :
    ((exchange incoming).server, (exchange incoming).sent) =
      Event.performAll (exchange incoming).events := by
  induction incoming using List.reverseRecOn with
  | nil => rfl
  | append_singleton incoming i ih =>
    rw [exchange_concat]
    obtain ⟨hserver, hsent⟩ := Prod.mk.inj ((exchange incoming).session.advance_eq i)
    unfold Exchange.next Exchange.server
    cases he : Event.ofMessage? (exchange incoming).session.phase i.message with
    | none =>
      rw [he] at hserver hsent
      rw [Option.map_none, Option.toList_none, List.append_nil, ← ih, hserver, hsent]
      exact congrArg (Prod.mk _) (List.append_nil _)
    | some e =>
      rw [he] at hserver hsent
      rw [Option.map_some, Option.toList_some, Event.performAll_concat, ← ih, hserver, hsent]
      rfl

/-- What holds at the start, and is kept by each event, holds after all events. -/
lemma Event.performAll_invariant {P : Server → List Outgoing → Prop} (hstart : P {} [])
    (hevent : ∀ fs s sent e, P s sent → P (perform fs s e).1 (sent ++ (perform fs s e).2))
    (events : List (FileSystem × Event)) : P (performAll events).1 (performAll events).2 := by
  induction events using List.reverseRecOn with
  | nil => exact hstart
  | append_singleton events e ih =>
    rw [performAll_concat]
    exact hevent e.1 _ _ e.2 ih

/-! ## Documents -/

namespace Documents

lemma find?_insert (uri u : Uri) (d : Document) (entries : List (Uri × Document)) :
    (insert uri d entries).find? (fun e => e.1 = u) =
      if uri = u then some (uri, d) else entries.find? fun e => e.1 = u := by
  induction entries with
  | nil =>
    rw [insert, List.find?_cons]
    by_cases h : uri = u
    · simp [h]
    · simp [h]
  | cons e rest ih =>
    rw [insert]
    by_cases hsame : uri = e.1
    · rw [if_pos hsame, List.find?_cons, List.find?_cons]
      by_cases h : uri = u
      · simp [h]
      · have he : e.1 ≠ u := fun heq => h (hsame.trans heq)
        simp [h, he]
    · rw [if_neg hsame]
      split_ifs with hbefore h h
      · simp [h]
      · rw [List.find?_cons_of_neg (by simpa using h)]
      · have he : e.1 ≠ u := fun heq => hsame (h.trans heq.symm)
        rw [List.find?_cons_of_neg (by simpa using he), ih, if_pos h]
      · rw [List.find?_cons, List.find?_cons, ih, if_neg h]

/-- An opened document is there with its text, and the others stay. -/
lemma get?_openAs (ds : Documents) (uri u : Uri) (d : Document) :
    (ds.openAs uri d).get? u = if uri = u then some d else ds.get? u := by
  unfold get? openAs
  rw [find?_insert]
  split_ifs
  · rfl
  · rfl

/-- An update changes the text and version of a document that is open, and no other. -/
lemma get?_update (ds : Documents) (uri u : Uri) (text : String) (version : Int) :
    (ds.update uri text version).get? u =
      if uri = u then (ds.get? u).map fun d => { d with text := text, version := version }
      else ds.get? u := by
  have hkey : ∀ e : Uri × Document, (if e.1 = uri then
      (uri, { e.2 with text := text, version := version }) else e).1 = e.1 := by
    intro e
    split_ifs with h
    · exact h.symm
    · rfl
  unfold get? update
  rw [List.find?_map, Option.map_map]
  simp only [Function.comp_def, hkey]
  cases hfind : ds.entries.find? fun e => decide (e.1 = u) with
  | none => simp
  | some e =>
    have he : e.1 = u := by simpa using List.find?_some hfind
    simp only [Option.map_some, he, eq_comm]
    split_ifs
    · rfl
    · rfl

/-- A closed document is gone, and the others stay. -/
lemma get?_close (ds : Documents) (uri u : Uri) :
    (ds.close uri).get? u = if uri = u then none else ds.get? u := by
  unfold get? close
  rw [List.find?_filter]
  by_cases h : uri = u
  · rw [if_pos h, Option.map_eq_none_iff, List.find?_eq_none]
    intro e _
    simp [h]
  · rw [if_neg h]
    congr 2
    funext e
    by_cases he : e.1 = u
    · simp [he, Ne.symm h]
    · simp [he]

end Documents

/-- The document under an address after an event. -/
def Event.document (uri : Uri) (d : Option Document) : Event → Option Document
  | .opened u d' => if u = uri then some d' else d
  | .changed u text version =>
    if u = uri then d.map fun d => { d with text := text, version := version } else d
  | .closed u => if u = uri then none else d
  | _ => d

/-- The document that an editor has under an address after events. -/
def editorDocument? (events : List (FileSystem × Event)) (uri : Uri) : Option Document :=
  events.foldl (fun d e => e.2.document uri d) none

lemma editorDocument?_concat (events : List (FileSystem × Event)) (fs : FileSystem) (e : Event)
    (uri : Uri) :
    editorDocument? (events ++ [(fs, e)]) uri = e.document uri (editorDocument? events uri) := by
  rw [editorDocument?, List.foldl_append]
  rfl

lemma documents_takeText (s : Server) (fs : FileSystem) (uri : Uri) (text : String) :
    (s.takeText fs uri text).1.documents = s.documents := by
  unfold Server.takeText
  cases s.tokenFilePath? uri with
  | none => rfl
  | some path => rfl

/-- An event does to each document what the editor does. -/
lemma documents_perform (fs : FileSystem) (s : Server) (e : Event) (uri : Uri) :
    (e.perform fs s).1.documents.get? uri = e.document uri (s.documents.get? uri) := by
  cases e with
  | start root given => rfl
  | ready => rfl
  | configured given => rfl
  | opened u d =>
    rw [Event.perform, Server.openDocument, documents_takeText]
    exact Documents.get?_openAs ..
  | changed u text version =>
    rw [Event.perform, Server.changeDocument, documents_takeText]
    exact Documents.get?_update ..
  | closed u => exact Documents.get?_close ..

/-- The server has the documents that the editor has. -/
lemma documents_performAll (events : List (FileSystem × Event)) (uri : Uri) :
    (Event.performAll events).1.documents.get? uri = editorDocument? events uri := by
  induction events using List.reverseRecOn with
  | nil => rfl
  | append_singleton events e ih =>
    rw [Event.performAll_concat, editorDocument?_concat, documents_perform, ih]

/-! ## The workspace -/

open Workspace (Operation after)

/-- What is done to the workspace when a text is taken in. -/
def textOperations (fs : FileSystem) (s : Server) (uri : Uri) (text : String) : List Operation :=
  ((s.tokenFilePath? uri).map fun path => .pass (.loadText fs path text)).toList

/-- What is done to the workspace at an event. -/
def Event.operations (fs : FileSystem) (s : Server) : Event → List Operation
  | .start root given => [.setRoot root, .setSettings (Server.settingsFrom fs root given)]
  | .ready => [.pass (.reload fs)]
  | .configured given =>
    [.setSettings (Server.settingsFrom fs s.workspace.root given), .pass (.reload fs)]
  | .opened uri d => textOperations fs s uri d.text
  | .changed uri text _ => textOperations fs s uri text
  | .closed _ => []

lemma workspace_takeText (s : Server) (ds : Documents) (fs : FileSystem) (uri : Uri)
    (text : String) :
    (Server.takeText { s with documents := ds } fs uri text).1.workspace =
      (textOperations fs s uri text).foldl Operation.perform s.workspace := by
  have hpath : Server.tokenFilePath? { s with documents := ds } uri = s.tokenFilePath? uri := rfl
  unfold Server.takeText textOperations
  rw [hpath]
  cases s.tokenFilePath? uri with
  | none => rfl
  | some path => rfl

/-- An event does to the workspace what its operations do. -/
lemma workspace_perform (fs : FileSystem) (s : Server) (e : Event) :
    (e.perform fs s).1.workspace = (e.operations fs s).foldl Operation.perform s.workspace := by
  cases e with
  | start root given => rfl
  | ready => rfl
  | configured given => rfl
  | opened uri d => exact workspace_takeText ..
  | changed uri text version => exact workspace_takeText ..
  | closed uri => rfl

/-- The workspace of a session is one that operations lead to. -/
lemma exists_operations (events : List (FileSystem × Event)) :
    ∃ ops, (Event.performAll events).1.workspace = after ops := by
  refine Event.performAll_invariant (P := fun s _ => ∃ ops, s.workspace = after ops) ⟨[], rfl⟩ ?_
    events
  rintro fs s sent e ⟨ops, hops⟩
  refine ⟨ops ++ e.operations fs s, ?_⟩
  rw [workspace_perform, hops, after, after, List.foldl_append]

/-! ## Messages for examples -/

/-- A session starts in the directory `/ws`, with a list of token files. -/
def startMessage (files : List String) : Message :=
  { id := some (.ofNat 1)
    method := "initialize"
    params := some (.ofFields
      [("capabilities", .ofFields []), ("rootUri", .string "file:///ws"),
       ("initializationOptions", .ofFields [("tokensFiles", .ofStrings files)])]) }

/-- The editor is ready. -/
def readyMessage : Message := ⟨none, "initialized", some (.ofFields [])⟩

/-- A document is opened, in its first version. -/
def openMessage (uri text : String) : Message :=
  ⟨none, "textDocument/didOpen", some (.ofFields
    [("textDocument", .ofFields
      [("uri", .string uri), ("languageId", .string "json"), ("version", .ofNat 1),
       ("text", .string text)])])⟩

/-- A document is closed. -/
def closeMessage (uri : String) : Message :=
  ⟨none, "textDocument/didClose", some (.ofFields
    [("textDocument", .ofFields [("uri", .string uri)])])⟩

/-- The address of a file in `/ws`. -/
def addressOf (name : String) : Uri :=
  { scheme := "file", authority := some {}, path := .segments ["ws", name] }

end DesignTokens.Editor
