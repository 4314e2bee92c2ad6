import DesignTokens.Proofs.ResolutionModes
import Mathlib.Data.List.Forall2

/-!
# Two spellings of a reference

A path without slashes and braces can be written in braces, `{color.red}`, or as a pointer,
`#/color/red`. Outside of the draft version both refer to the same name
(`Respells.dependencies_eq`, `Respells.link?_cases`), so it makes no difference which references in
braces of a batch are written as pointers instead (`Respells`): the graph is the same, and both
modes of resolution end alike, with the same values and the same tokens reported
(`respelled_resolution`). The two runs are compared place by place (`pass_respelled`).
-/

namespace DesignTokens

/-! ## Blanks around a text -/

namespace Text

/-- A text that neither starts nor ends with a blank. -/
def Unspaced (s : String) : Prop :=
  (∀ c ∈ s.toList.head?, isBlank c = false) ∧ ∀ c ∈ s.toList.getLast?, isBlank c = false

instance (s : String) : Decidable (Unspaced s) :=
  decidable_of_iff ((s.toList.head?.all fun c => !isBlank c) = true ∧
      (s.toList.getLast?.all fun c => !isBlank c) = true)
    (by simp [Unspaced, Option.all_eq_true])

lemma trimStart_eq_self {cs : List Char} (h : ∀ c ∈ cs.head?, isBlank c = false) :
    trimStart cs = cs := by
  cases cs with
  | nil => rfl
  | cons c cs => exact List.dropWhile_cons_of_neg (by simp [h c rfl])

lemma trimEnd_eq_self {cs : List Char} (h : ∀ c ∈ cs.getLast?, isBlank c = false) :
    trimEnd cs = cs := by
  have hstart : trimStart cs.reverse = cs.reverse :=
    trimStart_eq_self fun c hc => h c (by rwa [List.head?_reverse] at hc)
  rw [trimEnd, ← trimStart, hstart, List.reverse_reverse]

/-- Nothing is trimmed from a text without blanks at its ends. -/
lemma Unspaced.trimChars_eq {s : String} (h : Unspaced s) : trimChars s.toList = s.toList := by
  rw [trimChars, trimStart_eq_self h.1, trimEnd_eq_self h.2]

end Text

/-! ## Paths in braces and pointers -/

namespace Reference

/-- A path in braces. -/
def braced (path : String) : String :=
  "\x7b" ++ path ++ "\x7d"

/-- A path that can be written in braces and as a pointer. -/
structure Plain (path : String) : Prop where
  ne_empty : path ≠ ""
  no_slash : '/' ∉ path.toList
  no_opening : '{' ∉ path.toList
  no_closing : '}' ∉ path.toList
  unspaced : Text.Unspaced path

instance (path : String) : Decidable (Plain path) :=
  decidable_of_iff (path ≠ "" ∧ '/' ∉ path.toList ∧ '{' ∉ path.toList ∧ '}' ∉ path.toList ∧
      Text.Unspaced path)
    ⟨fun h => ⟨h.1, h.2.1, h.2.2.1, h.2.2.2.1, h.2.2.2.2⟩,
      fun h => ⟨h.ne_empty, h.no_slash, h.no_opening, h.no_closing, h.unspaced⟩⟩

lemma toList_braced (path : String) : (braced path).toList = '{' :: (path.toList ++ ['}']) := by
  simp [braced, String.toList_append]

lemma braceGroups_eq_nil {cs : List Char} (h : '{' ∉ cs) : braceGroups none cs = [] := by
  induction cs with
  | nil => rfl
  | cons c cs ih =>
    rw [List.mem_cons, not_or] at h
    rw [braceGroups, if_neg (Ne.symm h.1), ih h.2]

/-- What follows an opening brace, up to the next closing one. -/
lemma braceGroups_some {cs : List Char} (h : '}' ∉ cs) (group rest : List Char) :
    braceGroups (some group) (cs ++ '}' :: rest) =
      (if group.reverse ++ cs = [] then [] else [group.reverse ++ cs]) ++
        braceGroups none rest := by
  induction cs generalizing group with
  | nil => cases group <;> simp [braceGroups]
  | cons c cs ih =>
    rw [List.mem_cons, not_or] at h
    rw [List.cons_append, braceGroups, if_pos (Ne.symm h.1), ih h.2]
    simp

/-- A text without a closing brace, put in braces, is one reference. -/
lemma curlyPaths_braced {path : String} (hne : path ≠ "") (h : '}' ∉ path.toList) :
    curlyPaths (braced path) = [Text.trim path] := by
  have hgroup := braceGroups_some h [] []
  rw [List.reverse_nil, List.nil_append, if_neg (by simpa using hne)] at hgroup
  rw [curlyPaths, toList_braced, braceGroups, if_pos rfl, hgroup]
  rfl

/-- The only path in a plain one between braces is that one. -/
lemma Plain.curlyPaths_eq {path : String} (h : Plain path) : curlyPaths (braced path) = [path] := by
  rw [curlyPaths_braced h.ne_empty h.no_closing, Text.trim, h.unspaced.trimChars_eq,
    String.ofList_toList]

/-- A plain path between braces is a reference as a whole. -/
lemma Plain.wholePath?_eq {path : String} (h : Plain path) :
    wholePath? (braced path) = some path := by
  have hhead : (braced path).toList.head? = some '{' := by
    rw [toList_braced, List.head?_cons]
  have hlast : (braced path).toList.getLast? = some '}' := by
    rw [toList_braced, ← List.cons_append, List.getLast?_concat]
  have hbraces : Text.Unspaced (braced path) := by
    constructor
    · intro c hc
      cases hhead.symm.trans hc
      rfl
    · intro c hc
      cases hlast.symm.trans hc
      rfl
  simp only [wholePath?, h.curlyPaths_eq]
  rw [hbraces.trimChars_eq, if_pos ⟨hhead, hlast⟩]

/-- What is put in braces is no pointer. -/
lemma pointerPath?_braced (path : String) : pointerPath? (braced path) = none := by
  simp [pointerPath?, Text.afterStart?, toList_braced, Text.dropStart?]

lemma toList_dottedToPointer (path : String) :
    (dottedToPointer path).toList =
      '#' :: '/' :: path.toList.map fun c => if c = '.' then '/' else c := by
  simp [dottedToPointer, Text.replaceChar, String.toList_append]

/-- A path that is written as a pointer is read with slashes for its dots. -/
lemma pointerPath?_dottedToPointer (path : String) :
    pointerPath? (dottedToPointer path) = some (Text.replaceChar '.' '/' path) :=
  pointerPath?_eq_some.mpr rfl

/-- A pointer has no braces if its path has none. -/
lemma Plain.curlyPaths_pointer {path : String} (h : Plain path) :
    curlyPaths (dottedToPointer path) = [] := by
  have hnone : '{' ∉ (dottedToPointer path).toList := by
    rw [toList_dottedToPointer]
    simp only [List.mem_cons, List.mem_map, not_or, not_exists, not_and]
    refine ⟨by decide, by decide, fun c hc => ?_⟩
    split_ifs
    · decide
    · rintro rfl
      exact h.no_opening hc
  rw [curlyPaths, braceGroups_eq_nil hnone]
  rfl

/-- Points turned into slashes and slashes into a third character: as points turned into it. -/
lemma replaceChar_replaceChar {path : String} (h : '/' ∉ path.toList) (b : Char) :
    Text.replaceChar '/' b (Text.replaceChar '.' '/' path) = Text.replaceChar '.' b path := by
  simp only [Text.replaceChar, String.toList_ofList, List.map_map]
  congr 1
  refine List.map_congr_left fun c hc => ?_
  have hslash : c ≠ '/' := fun hc' => h (hc' ▸ hc)
  by_cases hdot : c = '.'
  · simp [hdot]
  · simp [hdot, hslash]

/-- Both spellings name the same token. -/
lemma Plain.slashedToName_eq {path : String} (h : Plain path) :
    slashedToName (Text.replaceChar '.' '/' path) = dottedToName path :=
  replaceChar_replaceChar h.no_slash '-'

/-- A path that became a pointer is read back. -/
lemma Plain.pointerToDotted_eq {path : String} (h : Plain path) :
    pointerToDotted (dottedToPointer path) = path := by
  have hself : (fun c : Char => if c = '.' then '.' else c) = id := by
    funext c
    split_ifs with hc
    · exact hc.symm
    · rfl
  rw [pointerToDotted, pointerPath?_dottedToPointer, Option.getD_some,
    replaceChar_replaceChar h.no_slash '.', Text.replaceChar, hself, List.map_id,
    String.ofList_toList]

end Reference

/-! ## Tokens in two spellings -/

/-- The token itself, or with its reference in braces written as a pointer. -/
inductive Respells (version : Version) (t : Token) : Token → Prop
  | same : Respells version t t
  | pointer (path : String) (plain : Reference.Plain path) (raw : t.rawValue = none)
      (release : t.effectiveVersion version ≠ .draft) (value : t.value = Reference.braced path) :
      Respells version t { t with value := Reference.dottedToPointer path }

namespace Respells

open Resolution

variable {version : Version} {t t' : Token}

lemma name_eq (h : Respells version t t') : t'.name = t.name := by
  cases h with
  | same => rfl
  | pointer => rfl

lemma isResolved_eq (h : Respells version t t') : t'.isResolved = t.isResolved := by
  cases h with
  | same => rfl
  | pointer => rfl

lemma resolvedValue_eq (h : Respells version t t') : t'.resolvedValue = t.resolvedValue := by
  cases h with
  | same => rfl
  | pointer => rfl

/-- Tokens that are spelled differently stay so when they get the same value. -/
lemma markResolved (h : Respells version t t') (v : Json.Value) :
    Respells version (t.markResolved v) (t'.markResolved v) := by
  cases h with
  | same => exact .same
  | pointer path plain raw release value => exact .pointer path plain raw release value

/-- Both spellings refer to the same names. -/
lemma dependencies_eq (h : Respells version t t') :
    t'.dependencies (t'.effectiveVersion version) =
      t.dependencies (t.effectiveVersion version) := by
  cases h with
  | same => rfl
  | pointer path plain raw release value =>
    have hversion : ({ t with value := Reference.dottedToPointer path } : Token).effectiveVersion
        version = t.effectiveVersion version := rfl
    rw [hversion]
    simp [Token.dependencies, Token.referenceText?, raw, value, Reference.extract, release,
      plain.curlyPaths_eq, plain.curlyPaths_pointer, Reference.pointerPath?_braced,
      Reference.pointerPath?_dottedToPointer, Reference.tokenName, plain.slashedToName_eq]

/-- Either both spellings are followed, to the same name, or neither is and the token is the
same. -/
lemma link?_cases (h : Respells version t t') :
    (link? version t = none ∧ t' = t) ∨
      ∃ l l', link? version t = some l ∧ link? version t' = some l' ∧ l'.name = l.name := by
  cases h with
  | same =>
    cases hlink : link? version t with
    | none => exact .inl ⟨rfl, rfl⟩
    | some l => exact .inr ⟨l, l, rfl, rfl, rfl⟩
  | pointer path plain raw release value =>
    refine .inr ⟨⟨Reference.dottedToName path, path⟩,
      ⟨Reference.dottedToName path, Reference.dottedToPointer path⟩, ?_, ?_, rfl⟩
    · exact link?_eq_some.mpr ⟨raw, .inl ⟨path, value ▸ plain.wholePath?_eq, rfl⟩⟩
    · refine link?_eq_some.mpr ⟨raw, .inr ⟨plain.curlyPaths_pointer, release, ?_⟩⟩
      exact ⟨_, rfl, by rw [plain.slashedToName_eq]⟩

end Respells

/-! ## Batches in two spellings -/

/-- Two errors of one kind: the same, or about a reference that is written in two ways. -/
inductive Error.SameKind : Error → Error → Prop
  | refl (e : Error) : SameKind e e
  | missing (reference reference' : String) :
      SameKind (.missingReference reference) (.missingReference reference')
  | unresolved (reference reference' : String) :
      SameKind (.unresolvedDependency reference) (.unresolvedDependency reference')

/-- Both results are there and related, or both are errors of one kind. -/
inductive EndAlike {α : Type} (R : α → α → Prop) : Except Error α → Except Error α → Prop
  | ok {a b : α} (related : R a b) : EndAlike R (.ok a) (.ok b)
  | error {e e' : Error} (kind : e.SameKind e') : EndAlike R (.error e) (.error e')

/-- Two results that end alike are both values or both errors of one kind. -/
lemma EndAlike.elim {α : Type} {R : α → α → Prop} {r r' : Except Error α} (h : EndAlike R r r') :
    (∃ a b, r = .ok a ∧ r' = .ok b ∧ R a b) ∨
      ∃ e e', r = .error e ∧ r' = .error e' ∧ e.SameKind e' := by
  cases h with
  | ok related => exact .inl ⟨_, _, rfl, rfl, related⟩
  | error kind => exact .inr ⟨_, _, rfl, rfl, kind⟩

/-- Tokens that are resolved alike. -/
def SameState (t t' : Token) : Prop :=
  t'.isResolved = t.isResolved ∧ t'.resolvedValue = t.resolvedValue

namespace Resolution

variable {version : Version} {tokens tokens' : List Token}

/-- Failures of the tokens at one place of two batches, for one kind of error. -/
def SameFailure (tokens tokens' : List Token) (f f' : Failure) : Prop :=
  ∃ i : Nat, tokens[i]? = some f.token ∧ tokens'[i]? = some f'.token ∧ f.error.SameKind f'.error

lemma map_name_respelled (h : List.Forall₂ (Respells version) tokens tokens') :
    tokens'.map Token.name = tokens.map Token.name := by
  induction h with
  | nil => rfl
  | cons ht _ ih => rw [List.map_cons, List.map_cons, ht.name_eq, ih]

/-- The graph reads names and references only. -/
lemma ofTokens_respelled (h : List.Forall₂ (Respells version) tokens tokens') :
    Graph.ofTokens tokens' version = Graph.ofTokens tokens version := by
  have hedits : Graph.editsOf tokens' version = Graph.editsOf tokens version := by
    unfold Graph.editsOf
    congr 1
    · have hnames := congrArg (List.map Graph.Edit.node) (map_name_respelled h)
      rwa [List.map_map, List.map_map] at hnames
    · induction h with
      | nil => rfl
      | cons ht _ ih =>
        rw [List.flatMap_cons, List.flatMap_cons, ht.name_eq, ht.dependencies_eq, ih]
  rw [Graph.ofTokens_eq_build, Graph.ofTokens_eq_build, hedits]

/-- The places of a name are read off the names of the batch. -/
lemma places_eq_names (tokens : List Token) (name : String) :
    places tokens name =
      ((tokens.map Token.name).zipIdx.filter fun p => p.1 = name).map Prod.snd := by
  rw [places, List.zipIdx_map, List.filter_map, List.map_map]
  rfl

/-- Names stand at the same places in both spellings. -/
lemma places_respelled (h : List.Forall₂ (Respells version) tokens tokens') :
    places tokens' = places tokens := by
  funext name
  rw [places_eq_names, places_eq_names, map_name_respelled h]

/-- A name is found in both batches, in the same state, or in neither. -/
lemma first_respelled (h : List.Forall₂ (Respells version) tokens tokens') (name : String) :
    Option.Rel (Respells version) (first tokens name) (first tokens' name) := by
  unfold first
  induction h with
  | nil => exact .none
  | @cons t t' _ _ ht _ ih =>
    by_cases hname : t.name = name
    · rw [List.find?_cons_of_pos (by simpa using hname),
        List.find?_cons_of_pos (by simpa [ht.name_eq] using hname)]
      exact .some ht
    · rw [List.find?_cons_of_neg (by simpa using hname),
        List.find?_cons_of_neg (by simpa [ht.name_eq] using hname)]
      exact ih

/-- To follow a reference to one name, written in two ways, ends alike. -/
lemma dereference_respelled (h : List.Forall₂ (Respells version) tokens tokens')
    (name written written' : String) :
    EndAlike Eq (dereference (first tokens) name written)
      (dereference (first tokens') name written') := by
  have hfound := first_respelled h name
  unfold dereference
  generalize first tokens name = found, first tokens' name = found' at hfound
  cases hfound with
  | none => exact .error (.missing ..)
  | some hu =>
    simp only [hu.isResolved_eq, hu.resolvedValue_eq]
    split
    · exact .ok rfl
    · exact .error (.unresolved ..)

/-- One token is resolved to the same value in both spellings, or fails in both. -/
lemma resolveToken_respelled (h : List.Forall₂ (Respells version) tokens tokens') {t t' : Token}
    (ht : Respells version t t') :
    EndAlike (Respells version) (resolveToken t (first tokens) version)
      (resolveToken t' (first tokens') version) := by
  unfold resolveToken
  rw [ht.isResolved_eq]
  split_ifs
  · exact .ok ht
  · rw [resolvedValue_eq, resolvedValue_eq]
    rcases ht.link?_cases with ⟨hnone, rfl⟩ | ⟨l, l', hl, hl', hname⟩
    · rw [hnone]
      exact .ok .same
    · rw [hl, hl']
      simp only [hname]
      have hread := dereference_respelled h l.name l.written l'.written
      generalize dereference (first tokens) l.name l.written = read,
        dereference (first tokens') l.name l'.written = read' at hread
      cases hread with
      | ok hv => exact .ok (hv ▸ ht.markResolved _)
      | error kind => exact .error kind

/-- The reports of two failures at one place. -/
lemma reported?_respelled {i : Nat} {t t' : Token} (hi : tokens[i]? = some t)
    (hi' : tokens'[i]? = some t') {e e' : Error} (kind : e.SameKind e') :
    List.Forall₂ (SameFailure tokens tokens') (reported? t e).toList (reported? t' e').toList := by
  have hsame : SameFailure tokens tokens' ⟨t, e⟩ ⟨t', e'⟩ := ⟨i, hi, hi', kind⟩
  cases kind with
  | refl =>
    cases e with
    | unresolvedDependency => exact .nil
    | _ => exact .cons hsame .nil
  | missing => exact .cons hsame .nil
  | unresolved => exact .nil

/-! ## Two passes -/

/-- Each place has a token in both batches or in neither. -/
lemma getElem?_respelled (h : List.Forall₂ (Respells version) tokens tokens') (i : Nat) :
    (tokens[i]? = none ∧ tokens'[i]? = none) ∨
      ∃ t t', tokens[i]? = some t ∧ tokens'[i]? = some t' ∧ Respells version t t' := by
  induction h generalizing i with
  | nil => exact .inl ⟨rfl, rfl⟩
  | cons ht _ ih =>
    cases i with
    | zero => exact .inr ⟨_, _, rfl, rfl, ht⟩
    | succ i => exact ih i

lemma set_respelled (h : List.Forall₂ (Respells version) tokens tokens') (i : Nat) {t t' : Token}
    (ht : Respells version t t') :
    List.Forall₂ (Respells version) (tokens.set i t) (tokens'.set i t') := by
  induction h generalizing i with
  | nil => exact .nil
  | cons hu hrest ih =>
    cases i with
    | zero => exact .cons ht hrest
    | succ i => exact .cons hu (ih i)

/-- What is not resolved is as it was on entry. -/
def UntouchedOrResolved (entry tokens : List Token) : Prop :=
  ∀ (i : Nat) (t : Token), tokens[i]? = some t → t.isResolved = false → entry[i]? = some t

/-- A token that is replaced by a resolved one keeps this. -/
lemma UntouchedOrResolved.set {entry : List Token} (h : UntouchedOrResolved entry tokens) (i : Nat)
    {t : Token} (ht : t.isResolved = true) : UntouchedOrResolved entry (tokens.set i t) := by
  intro j u hu hres
  rw [List.getElem?_set] at hu
  split_ifs at hu
  · cases hu
    rw [ht] at hres
    cases hres
  · exact h j u hu hres

/-- Two runs over batches in two spellings: the tokens differ in spelling only, and the same tokens
of the batches on entry are reported. -/
structure RunAlike (version : Version) (entry entry' : List Token)
    (run run' : List Token × Except Error (List Failure)) : Prop where
  tokens : List.Forall₂ (Respells version) run.1 run'.1
  results : EndAlike (List.Forall₂ (SameFailure entry entry')) run.2 run'.2

/-- Two runs stay alike when both report the same failures. -/
lemma RunAlike.report {entry entry' : List Token}
    {run run' : List Token × Except Error (List Failure)}
    (h : RunAlike version entry entry' run run') {new new' : List Failure}
    (hnew : List.Forall₂ (SameFailure entry entry') new new') :
    RunAlike version entry entry' (run.1, run.2.map (new ++ ·))
      (run'.1, run'.2.map (new' ++ ·)) := by
  refine ⟨h.tokens, ?_⟩
  rcases h.results.elim with ⟨failures, failures', hok, hok', hsame⟩ | ⟨e, e', he, he', kind⟩
  · rw [hok, hok']
    exact .ok (List.rel_append hnew hsame)
  · rw [he, he']
    exact .error kind

/-- Both passes take the same course, by induction on the places that are left. -/
lemma pass_respelled (mode : Mode) {entry entry' : List Token} (work : List Nat)
    (h : List.Forall₂ (Respells version) tokens tokens') (hentry : UntouchedOrResolved entry tokens)
    (hentry' : UntouchedOrResolved entry' tokens') :
    RunAlike version entry entry' (pass mode version work tokens)
      (pass mode version work tokens') := by
  induction work generalizing tokens tokens' with
  | nil => exact ⟨h, .ok .nil⟩
  | cons i work ih =>
    rcases getElem?_respelled h i with ⟨hi, hi'⟩ | ⟨t, t', hi, hi', ht⟩
    · rw [pass_cons_of_none mode version work hi, pass_cons_of_none mode version work hi']
      exact ih h hentry hentry'
    rcases (resolveToken_respelled h ht).elim with ⟨u, u', hok, hok', hu⟩ | ⟨e, e', he, he', kind⟩
    · rw [pass_cons_of_ok mode work hi hok, pass_cons_of_ok mode work hi' hok']
      exact ih (set_respelled h i hu) (hentry.set i (isResolved_of_resolveToken hok))
        (hentry'.set i (isResolved_of_resolveToken hok'))
    · cases mode with
      | strict =>
        rw [pass_strict_cons_of_error work hi he, pass_strict_cons_of_error work hi' he']
        exact ⟨h, .error kind⟩
      | lenient =>
        rw [pass_lenient_cons_of_error work hi he, pass_lenient_cons_of_error work hi' he']
        -- The token that fails was not resolved before, so it is the one of the entry.
        have hplace := hentry i t hi (isResolved_of_resolveToken_error he)
        have hplace' := hentry' i t' hi' (isResolved_of_resolveToken_error he')
        exact (ih h hentry hentry').report (reported?_respelled hplace hplace' kind)

/-- Both spellings of a batch are passed over in the same order. -/
lemma inOrder_respelled (mode : Mode) (h : List.Forall₂ (Respells version) tokens tokens') :
    RunAlike version tokens tokens' (inOrder mode tokens version)
      (inOrder mode tokens' version) := by
  unfold inOrder
  rw [ofTokens_respelled h, places_respelled h]
  cases (Graph.ofTokens tokens version).order with
  | error e => exact ⟨h, .error (.refl e)⟩
  | ok names => exact pass_respelled mode _ h (fun _ _ ht _ => ht) fun _ _ ht _ => ht

lemma sameState_of_respells (h : List.Forall₂ (Respells version) tokens tokens') :
    List.Forall₂ SameState tokens tokens' :=
  h.imp fun _ _ ht => ⟨ht.isResolved_eq, ht.resolvedValue_eq⟩

/-- The strict mode takes over what the pass has made of the batch, or leaves the batch. -/
lemma strict_respelled (h : List.Forall₂ (Respells version) tokens tokens') :
    List.Forall₂ SameState (strict tokens version).1 (strict tokens' version).1 ∧
      EndAlike Eq (strict tokens version).2 (strict tokens' version).2 := by
  obtain ⟨hscratch, hresults⟩ := inOrder_respelled .strict h
  unfold strict
  generalize inOrder .strict tokens version = run, inOrder .strict tokens' version = run'
    at hscratch hresults
  obtain ⟨scratch, result⟩ := run
  obtain ⟨scratch', result'⟩ := run'
  cases hresults with
  | ok => exact ⟨sameState_of_respells hscratch, .ok rfl⟩
  | error kind => exact ⟨sameState_of_respells h, .error kind⟩

/-- The two spellings of a reference are interchangeable outside of the draft version: whichever
references in braces of a batch are written as pointers, the graph stays the same, and both modes
end with the same values or with errors of one kind, and report the same tokens in the same order.
The pointer of a path gives the path back. -/
theorem respelled_resolution (h : List.Forall₂ (Respells version) tokens tokens') :
    Graph.ofTokens tokens' version = Graph.ofTokens tokens version ∧
    List.Forall₂ SameState (lenient tokens version).1 (lenient tokens' version).1 ∧
    EndAlike (List.Forall₂ (SameFailure tokens tokens')) (lenient tokens version).2
      (lenient tokens' version).2 ∧
    List.Forall₂ SameState (strict tokens version).1 (strict tokens' version).1 ∧
    EndAlike Eq (strict tokens version).2 (strict tokens' version).2 ∧
    ∀ path, Reference.Plain path →
      Reference.pointerToDotted (Reference.dottedToPointer path) = path := by
  obtain ⟨hlenient, hfailures⟩ := inOrder_respelled .lenient h
  obtain ⟨hstrict, hresult⟩ := strict_respelled h
  exact ⟨ofTokens_respelled h, sameState_of_respells hlenient, hfailures, hstrict, hresult,
    fun _ hpath => hpath.pointerToDotted_eq⟩

/-- A chain of references, one that names no token, one that depends on it, and a pointer. -/
def bracedBatch : List Token :=
  [{ name := "accent", value := "{brand}" },
   { name := "brand", value := "{color.red}" },
   { name := "typo", value := "{color.nope}" },
   { name := "behind", value := "{typo}" },
   { name := "border", value := "#/accent" },
   { name := "color-red", value := "#f00" }]

/-- The same batch with pointers for some of its references in braces. -/
def pointerBatch : List Token :=
  [{ name := "accent", value := "{brand}" },
   { name := "brand", value := "#/color/red" },
   { name := "typo", value := "#/color/nope" },
   { name := "behind", value := "#/typo" },
   { name := "border", value := "#/accent" },
   { name := "color-red", value := "#f00" }]

theorem respelled_resolution_mixed :
    List.Forall₂ (Respells .v2025_10) bracedBatch pointerBatch ∧
    Graph.ofTokens pointerBatch .v2025_10 = Graph.ofTokens bracedBatch .v2025_10 ∧
    List.Forall₂ SameState (lenient bracedBatch .v2025_10).1 (lenient pointerBatch .v2025_10).1 ∧
    (lenient bracedBatch .v2025_10).1.map Token.isResolved =
      [true, true, false, false, true, true] ∧
    (∃ failures failures', (lenient bracedBatch .v2025_10).2 = .ok failures ∧
      (lenient pointerBatch .v2025_10).2 = .ok failures' ∧ failures.length = 1 ∧
      List.Forall₂ (SameFailure bracedBatch pointerBatch) failures failures') ∧
    (∃ e e', (strict bracedBatch .v2025_10).2 = .error e ∧
      (strict pointerBatch .v2025_10).2 = .error e' ∧ e.SameKind e') ∧
    Reference.pointerToDotted (Reference.dottedToPointer "color.red") = "color.red" := by
  have hred : Reference.Plain "color.red" := by decide
  have hspelled : List.Forall₂ (Respells .v2025_10) bracedBatch pointerBatch :=
    .cons .same <| .cons (.pointer "color.red" hred rfl (by decide) rfl) <|
      .cons (.pointer "color.nope" (by decide) rfl (by decide) rfl) <|
      .cons (.pointer "typo" (by decide) rfl (by decide) rfl) <| .cons .same <| .cons .same .nil
  have hreported : (lenient bracedBatch .v2025_10).2 =
      .ok [⟨{ name := "typo", value := "{color.nope}" }, .missingReference "color.nope"⟩] := rfl
  have hmissing : (strict bracedBatch .v2025_10).2 = .error (.missingReference "color.nope") := rfl
  obtain ⟨hgraph, hstate, hlenient, -, hstrict, hpath⟩ := respelled_resolution hspelled
  refine ⟨hspelled, hgraph, hstate, rfl, ?_, ?_, hpath _ hred⟩
  · rcases hlenient.elim with ⟨failures, failures', hok, hok', hsame⟩ | ⟨e, e', he, -⟩
    · cases hreported.symm.trans hok
      exact ⟨_, failures', hreported, hok', rfl, hsame⟩
    · cases hreported.symm.trans he
  · rcases hstrict.elim with ⟨_, _, hok, -⟩ | ⟨e, e', he, he', kind⟩
    · cases hmissing.symm.trans hok
    · exact ⟨e, e', he, he', kind⟩

end Resolution

end DesignTokens
