import DesignTokens.Proofs.ParsedTokens
import DesignTokens.Proofs.SortedDocuments
import Mathlib.Data.List.Permutation

/-!
# What a document declares

A document declares tokens at paths of keys (`Declared`): a node with a value is one, and in the
release of October 2025 a group may declare that it extends another and may have a token of its
own. The way to a declaration leads through groups only. The list of the declarations of a group's
fields (`fieldDeclarations`) follows the tree: it has exactly those that are declared
(`mem_fieldDeclarations`), in the order of the tree (`pairwise_fieldDeclarations`).
-/

namespace DesignTokens

/-! ## Paths in a document -/

namespace Json.Value

/-- The value at a path of keys. -/
def at? (v : Value) : List String → Option Value
  | [] => some v
  | key :: path => (v.get? key).bind fun w => w.at? path

/-- A path is followed in two parts. -/
lemma at?_append (v : Value) (path path' : List String) :
    v.at? (path ++ path') = (v.at? path).bind fun w => w.at? path' := by
  induction path generalizing v with
  | nil => rfl
  | cons key path ih =>
    rw [List.cons_append, at?, at?, Option.bind_assoc]
    cases v.get? key with
    | none => rfl
    | some w => exact ih w

lemma at?_singleton (v : Value) (key : String) : v.at? [key] = v.get? key := by
  rw [at?]
  cases v.get? key with
  | none => rfl
  | some w => rfl

/-- Only objects have something below them. -/
lemma exists_object_of_at? {v w : Value} {key : String} {path : List String}
    (h : v.at? (key :: path) = some w) : ∃ fields, v = .object fields := by
  cases v with
  | object fields => exact ⟨fields, rfl⟩
  | _ => cases h

end Json.Value

namespace TokenFile

open Json (Value Fields)

/-! ## Declarations -/

/-- What a declaration is. -/
inductive DeclarationKind where
  /-- A node with a value. -/
  | node
  /-- That a group extends another. -/
  | extension
  /-- A group's own token. -/
  | root
deriving DecidableEq, Repr

/-- The keys under which a declaration of a kind is written. -/
def DeclarationKind.keys : DeclarationKind → List String
  | .node => ["$value"]
  | .extension => ["$extends"]
  | .root => ["$root", "$value"]

/-- The order of declarations at one path. -/
def DeclarationKind.rank : DeclarationKind → Nat
  | .node => 0
  | .extension => 1
  | .root => 2

/-- A declaration of a token at a path of keys. -/
structure Declaration where
  path : List String
  kind : DeclarationKind
deriving DecidableEq, Repr

namespace Declaration

/-- What a document has for a declaration. -/
def written? (doc : Value) (d : Declaration) : Option Value :=
  doc.at? (d.path ++ d.kind.keys)

/-- The path of the declared token. -/
def tokenPath (d : Declaration) : List String :=
  match d.kind with
  | .extension => d.path ++ ["$extends"]
  | _ => d.path

/-- The declaration seen from above. -/
def below (path : List String) (d : Declaration) : Declaration :=
  ⟨path ++ d.path, d.kind⟩

/-- The order of the tree: what is above comes first, then what is under the key with smaller
bytes. -/
def Before (d d' : Declaration) : Prop :=
  List.Lex (fun key key' => Text.utf8 key < Text.utf8 key') d.path d'.path ∨
    d.path = d'.path ∧ d.kind.rank < d'.kind.rank

end Declaration

/-- The path leads to an object that is a group: one without a value, or under a key that marks
groups. -/
def IsGroup (markers : List String) (doc : Value) (path : List String) : Prop :=
  (∃ fields, doc.at? path = some (.object fields)) ∧
    (doc.at? (path ++ ["$value"]) = none ∨ ∃ key ∈ path.getLast?, key ∈ markers)

/-- What a document declares. -/
structure Declared (c : Context) (doc : Value) (d : Declaration) : Prop where
  path_ne_nil : d.path ≠ []
  no_dollar : ∀ key ∈ d.path, key.toList.head? ≠ some '$'
  /-- Above it there are groups only. -/
  above : ∀ path, path ≠ [] → path <+: d.path → path ≠ d.path →
    IsGroup c.options.groupMarkers doc path
  /-- Only groups of the release of October 2025 extend others or have tokens of their own. -/
  group : d.kind ≠ .node → c.version = .v2025_10 ∧ IsGroup c.options.groupMarkers doc d.path
  written : ∃ v, d.written? doc = some v ∧ (d.kind = .extension → ∃ target, v = .string target)

/-! ## The declarations of fields -/

/-- The kinds of declaration in a group that are about the group itself. -/
def headKinds (c : Context) (group : Value) : List DeclarationKind :=
  if c.version = .v2025_10 then
    (if (group.stringAt? "$extends").isSome then [.extension] else []) ++
      if ((group.get? "$root").bind (Value.get? "$value")).isSome then [.root] else []
  else []

/-- Whether what is under a key may be a group. -/
def opens (c : Context) (key : String) (node : Value) : Bool :=
  !hasValue node || c.options.groupMarkers.contains key

mutual

/-- The declarations of a child of a group. -/
def nodeDeclarations (c : Context) (key : String) : Value → List Declaration
  | .object fields =>
    if Text.startsWith "$" key then []
    else
      (if hasValue (.object fields) then [⟨[key], .node⟩] else []) ++
        if opens c key (.object fields) then
          (headKinds c (.object fields)).map (⟨[key], ·⟩) ++
            (fieldDeclarations c fields).map (Declaration.below [key])
        else []
  | _ => []

/-- The declarations of the children of a group, by their paths from the group on. -/
def fieldDeclarations (c : Context) : List (String × Value) → List Declaration
  | [] => []
  | (key, node) :: rest => nodeDeclarations c key node ++ fieldDeclarations c rest

end

/-- The declarations of fields are those of each field, in their order. -/
lemma fieldDeclarations_eq (c : Context) (fields : List (String × Value)) :
    fieldDeclarations c fields = fields.flatMap fun e => nodeDeclarations c e.1 e.2 := by
  induction fields with
  | nil => rw [fieldDeclarations, List.flatMap_nil]
  | cons e rest ih => rw [fieldDeclarations, ih, List.flatMap_cons]

/-- A key starts with a dollar sign if that is its first character. -/
lemma startsWith_dollar_iff (key : String) :
    Text.startsWith "$" key = true ↔ key.toList.head? = some '$' := by
  rw [Text.startsWith]
  cases key.toList with
  | nil => simp [Text.dropStart?]
  | cons a rest => by_cases ha : a = '$' <;> simp [Text.dropStart?, ha, eq_comm]

/-- What is declared under a key: the node, something about it as a group, or something in it. -/
lemma mem_nodeDeclarations {c : Context} {key : String} {node : Value} {d : Declaration} :
    d ∈ nodeDeclarations c key node ↔ key.toList.head? ≠ some '$' ∧
      ∃ fields, node = .object fields ∧
        ((d = ⟨[key], .node⟩ ∧ hasValue node = true) ∨ opens c key node = true ∧
          ((∃ kind ∈ headKinds c node, d = ⟨[key], kind⟩) ∨
            ∃ d' ∈ fieldDeclarations c fields, d = d'.below [key])) := by
  cases node with
  | object fields =>
    rw [nodeDeclarations]
    by_cases hkey : Text.startsWith "$" key = true
    · simp [hkey, (startsWith_dollar_iff key).mp hkey]
    · rw [if_neg hkey]
      have hdollar := mt (startsWith_dollar_iff key).mpr hkey
      simp only [List.mem_append, List.mem_ite_nil_right, List.mem_singleton, List.mem_map,
        Value.object.injEq, exists_eq_left', ne_eq, hdollar, not_false_eq_true, true_and]
      simp only [@eq_comm _ d, and_comm]
  | _ => simp [nodeDeclarations]

/-- What a group says about itself, in the release of October 2025 only. -/
lemma mem_headKinds {c : Context} {group : Value} {kind : DeclarationKind} :
    kind ∈ headKinds c group ↔ kind ≠ .node ∧ c.version = .v2025_10 ∧
      ∃ v, group.at? kind.keys = some v ∧ (kind = .extension → ∃ target, v = .string target) := by
  by_cases hversion : c.version = .v2025_10
  · rw [headKinds, if_pos hversion]
    cases kind with
    | node => simp
    | extension =>
      have hstring : (group.stringAt? "$extends").isSome = true ↔
          ∃ v, group.get? "$extends" = some v ∧ ∃ target, v = .string target := by
        rw [Value.stringAt?, Option.isSome_iff_exists]
        simp only [Option.bind_eq_some_iff]
        constructor
        · rintro ⟨target, v, hv, htarget⟩
          cases v <;> simp [Value.string?] at htarget
          exact ⟨_, hv, _, rfl⟩
        · rintro ⟨v, hv, target, rfl⟩
          exact ⟨target, _, hv, rfl⟩
      simp [hversion, hstring, DeclarationKind.keys, Value.at?_singleton]
    | root =>
      simp [hversion, DeclarationKind.keys, Value.at?, Option.isSome_iff_exists]
  · simp [headKinds, hversion]

/-! ## What is declared under a key -/

/-- What is written for a declaration stands below the first key of its path. -/
lemma written?_cons (doc : Value) (key : String) (path : List String) (kind : DeclarationKind) :
    (⟨key :: path, kind⟩ : Declaration).written? doc =
      (doc.get? key).bind fun node => (⟨path, kind⟩ : Declaration).written? node :=
  rfl

/-- A group under a key is an object there that may be one. -/
lemma isGroup_singleton {c : Context} {doc : Value} {key : String} :
    IsGroup c.options.groupMarkers doc [key] ↔
      ∃ fields, doc.get? key = some (.object fields) ∧ opens c key (.object fields) = true := by
  have hvalue : doc.at? ([key] ++ ["$value"]) = (doc.get? key).bind (Value.get? "$value") := by
    rw [Value.at?_append, Value.at?_singleton]
    simp only [Value.at?_singleton]
  rw [IsGroup, hvalue, Value.at?_singleton]
  simp only [List.getLast?_singleton, Option.mem_def, Option.some.injEq, exists_eq_left', opens,
    Bool.or_eq_true, Bool.not_eq_true', List.contains_iff_mem, hasValue]
  constructor
  · rintro ⟨⟨fields, hfields⟩, hgroup⟩
    refine ⟨fields, hfields, hgroup.imp_left fun hnone => ?_⟩
    rw [hfields] at hnone
    exact Option.isSome_eq_false_iff.mpr (Option.isNone_iff_eq_none.mpr hnone)
  · rintro ⟨fields, hfields, hgroup⟩
    refine ⟨⟨fields, hfields⟩, hgroup.imp_left fun hnone => ?_⟩
    rw [hfields]
    exact Option.isNone_iff_eq_none.mp (Option.isSome_eq_false_iff.mp hnone)

/-- A group further down is a group in what the first key leads to. -/
lemma isGroup_cons {markers : List String} {doc : Value} {key : String} {path : List String}
    (h : path ≠ []) :
    IsGroup markers doc (key :: path) ↔
      ∃ node, doc.get? key = some node ∧ IsGroup markers node path := by
  have hlast : (key :: path).getLast? = path.getLast? := by
    rw [List.getLast?_cons_of_ne_nil h]
  unfold IsGroup
  rw [hlast, List.cons_append, Value.at?, Value.at?]
  cases doc.get? key with
  | none => simp
  | some node => simp

/-- Declared at a key: the node there, or something about it as a group. -/
lemma declared_singleton {c : Context} {doc : Value} {key : String} {kind : DeclarationKind} :
    Declared c doc ⟨[key], kind⟩ ↔ key.toList.head? ≠ some '$' ∧
      ∃ fields, doc.get? key = some (.object fields) ∧
        ((kind = .node ∧ hasValue (.object fields) = true) ∨
          opens c key (.object fields) = true ∧ kind ∈ headKinds c (.object fields)) := by
  constructor
  · intro h
    refine ⟨h.no_dollar key (List.mem_singleton_self _), ?_⟩
    obtain ⟨v, hv, hstring⟩ := h.written
    rw [written?_cons, Option.bind_eq_some_iff] at hv
    obtain ⟨node, hnode, hv⟩ := hv
    by_cases hkind : kind = .node
    · subst hkind
      obtain ⟨fields, rfl⟩ := Value.exists_object_of_at? hv
      refine ⟨fields, hnode, .inl ⟨rfl, ?_⟩⟩
      rw [hasValue, ← Value.at?_singleton]
      exact Option.isSome_of_eq_some hv
    · obtain ⟨hversion, hgroup⟩ := h.group hkind
      obtain ⟨fields, hfields, hopens⟩ := isGroup_singleton.mp hgroup
      cases hnode.symm.trans hfields
      exact ⟨fields, hnode, .inr ⟨hopens, mem_headKinds.mpr ⟨hkind, hversion, v, hv, hstring⟩⟩⟩
  · rintro ⟨hkey, fields, hfields, hdeclared⟩
    have habove : ∀ path : List String, path ≠ [] → path <+: [key] → path = [key] := by
      intro path hne hpath
      cases path with
      | nil => exact absurd rfl hne
      | cons k rest =>
        obtain ⟨rfl, hrest⟩ := List.cons_prefix_cons.mp hpath
        rw [List.prefix_nil.mp hrest]
    have hwritten : ∀ v, (Value.object fields).at? kind.keys = some v →
        (⟨[key], kind⟩ : Declaration).written? doc = some v := by
      intro v hv
      rw [written?_cons, hfields]
      exact hv
    refine ⟨List.cons_ne_nil _ _, by simpa using hkey, fun path hne hpath hproper =>
      absurd (habove path hne hpath) hproper, fun hkind => ?_, ?_⟩
    · rcases hdeclared with ⟨rfl, -⟩ | ⟨hopens, hhead⟩
      · exact absurd rfl hkind
      · exact ⟨(mem_headKinds.mp hhead).2.1, isGroup_singleton.mpr ⟨fields, hfields, hopens⟩⟩
    · rcases hdeclared with ⟨rfl, hvalue⟩ | ⟨-, hhead⟩
      · rw [hasValue, ← Value.at?_singleton] at hvalue
        obtain ⟨v, hv⟩ := Option.isSome_iff_exists.mp hvalue
        exact ⟨v, hwritten v hv, fun h => by cases h⟩
      · obtain ⟨-, -, v, hv, hstring⟩ := mem_headKinds.mp hhead
        exact ⟨v, hwritten v hv, hstring⟩

/-- Declared below a key: what is declared in the group there. -/
lemma declared_cons {c : Context} {doc : Value} {key : String} {path : List String}
    (hpath : path ≠ []) {kind : DeclarationKind} :
    Declared c doc ⟨key :: path, kind⟩ ↔ key.toList.head? ≠ some '$' ∧
      ∃ fields, doc.get? key = some (.object fields) ∧ opens c key (.object fields) = true ∧
        Declared c (.object fields) ⟨path, kind⟩ := by
  constructor
  · intro h
    refine ⟨h.no_dollar key (List.mem_cons_self ..), ?_⟩
    have hfirst := h.above [key] (List.cons_ne_nil _ _) (by simp) (by simpa using hpath.symm)
    obtain ⟨fields, hfields, hopens⟩ := isGroup_singleton.mp hfirst
    have hgroup : ∀ p, p ≠ [] → IsGroup c.options.groupMarkers doc (key :: p) →
        IsGroup c.options.groupMarkers (.object fields) p := by
      intro p hp hg
      obtain ⟨node, hnode, hg⟩ := (isGroup_cons hp).mp hg
      cases hfields.symm.trans hnode
      exact hg
    refine ⟨fields, hfields, hopens, hpath, fun k hk => h.no_dollar k (List.mem_cons_of_mem _ hk),
      fun p hp hbegins hproper => ?_, fun hkind => ?_, ?_⟩
    · exact hgroup p hp (h.above _ (List.cons_ne_nil _ _) ((List.prefix_cons_inj key).mpr hbegins)
        (by simpa using hproper))
    · exact ⟨(h.group hkind).1, hgroup path hpath (h.group hkind).2⟩
    · obtain ⟨v, hv, hstring⟩ := h.written
      rw [written?_cons, hfields] at hv
      exact ⟨v, hv, hstring⟩
  · rintro ⟨hkey, fields, hfields, hopens, h⟩
    have hgroup : ∀ p, p ≠ [] → IsGroup c.options.groupMarkers (.object fields) p →
        IsGroup c.options.groupMarkers doc (key :: p) :=
      fun p hp hg => (isGroup_cons hp).mpr ⟨_, hfields, hg⟩
    refine ⟨List.cons_ne_nil _ _, List.forall_mem_cons.mpr ⟨hkey, h.no_dollar⟩,
      fun p hp hbegins hproper => ?_, fun hkind => ?_, ?_⟩
    · -- A path that begins this one starts with the key.
      cases p with
      | nil => exact absurd rfl hp
      | cons k p =>
        obtain ⟨rfl, htail⟩ := List.cons_prefix_cons.mp hbegins
        by_cases hnil : p = []
        · subst hnil
          exact isGroup_singleton.mpr ⟨fields, hfields, hopens⟩
        · exact hgroup p hnil (h.above p hnil htail (by simpa using hproper))
    · exact ⟨(h.group hkind).1, hgroup path hpath (h.group hkind).2⟩
    · obtain ⟨v, hv, hstring⟩ := h.written
      exact ⟨v, by rw [written?_cons, hfields]; exact hv, hstring⟩

/-! ## The declarations are complete and in order -/

/-- The declarations of the fields of a sorted object are what it declares. -/
lemma mem_fieldDeclarations (c : Context) {v : Value} (hv : v.Sorted) {fields : Fields}
    (hfields : v = .object fields) (d : Declaration) :
    d ∈ fieldDeclarations c fields ↔ Declared c (.object fields) d := by
  induction hv generalizing fields d with
  | @object own keys _ ih =>
    cases hfields
    have hfound : ∀ key node, (key, node) ∈ own ↔ (Value.object own).get? key = some node :=
      fun _ _ => ⟨keys.get?_of_mem, Fields.mem_of_get?⟩
    obtain ⟨path, kind⟩ := d
    rw [fieldDeclarations_eq, List.mem_flatMap]
    simp only [Prod.exists, mem_nodeDeclarations]
    constructor
    · rintro ⟨key, _, hmem, hkey, inner, rfl,
        ⟨heq, hvalue⟩ | ⟨hopens, ⟨k, hk, heq⟩ | ⟨d', hd', heq⟩⟩⟩
      · cases heq
        exact declared_singleton.mpr ⟨hkey, inner, (hfound _ _).mp hmem, .inl ⟨rfl, hvalue⟩⟩
      · cases heq
        exact declared_singleton.mpr ⟨hkey, inner, (hfound _ _).mp hmem, .inr ⟨hopens, hk⟩⟩
      · cases heq
        have hinner := (ih _ hmem rfl d').mp hd'
        exact (declared_cons hinner.path_ne_nil).mpr
          ⟨hkey, inner, (hfound _ _).mp hmem, hopens, hinner⟩
    · intro h
      cases path with
      | nil => exact absurd rfl h.path_ne_nil
      | cons key path =>
        by_cases hpath : path = []
        · subst hpath
          obtain ⟨hkey, inner, hget, hdeclared⟩ := declared_singleton.mp h
          refine ⟨key, _, (hfound _ _).mpr hget, hkey, inner, rfl, ?_⟩
          rcases hdeclared with ⟨rfl, hvalue⟩ | ⟨hopens, hk⟩
          · exact .inl ⟨rfl, hvalue⟩
          · exact .inr ⟨hopens, .inl ⟨kind, hk, rfl⟩⟩
        · obtain ⟨hkey, inner, hget, hopens, hinner⟩ := (declared_cons hpath).mp h
          have hmem := (hfound _ _).mpr hget
          have hd := (ih _ hmem rfl ⟨path, kind⟩).mpr hinner
          exact ⟨key, _, hmem, hkey, inner, rfl, .inr ⟨hopens, .inr ⟨_, hd, rfl⟩⟩⟩
  | _ => cases hfields

lemma Declaration.Before.below {d d' : Declaration} (h : d.Before d') (key : String) :
    (d.below [key]).Before (d'.below [key]) := by
  rcases h with h | ⟨hpath, hrank⟩
  · exact .inl (.cons h)
  · exact .inr ⟨congrArg (key :: ·) hpath, hrank⟩

/-- What is declared at a key comes before what is declared below it. -/
lemma before_below {key : String} (kind : DeclarationKind) {d : Declaration} (h : d.path ≠ []) :
    (⟨[key], kind⟩ : Declaration).Before (d.below [key]) := by
  obtain ⟨k, path, hpath⟩ := List.exists_cons_of_ne_nil h
  refine .inl ?_
  rw [Declaration.below, hpath]
  exact .cons .nil

lemma pairwise_headKinds (c : Context) (group : Value) :
    (headKinds c group).Pairwise fun kind kind' => kind.rank < kind'.rank := by
  have hsub : (headKinds c group).Sublist [.extension, .root] := by
    unfold headKinds
    split_ifs <;> simp
  exact List.Pairwise.sublist hsub (by decide)

/-- The declarations under one key are in the order of the tree if those of its fields are. -/
lemma pairwise_nodeDeclarations (c : Context) (key : String) {fields : Fields}
    (hpaths : ∀ d ∈ fieldDeclarations c fields, d.path ≠ [])
    (h : (fieldDeclarations c fields).Pairwise Declaration.Before) :
    (nodeDeclarations c key (.object fields)).Pairwise Declaration.Before := by
  have hbelow : ((fieldDeclarations c fields).map (Declaration.below [key])).Pairwise
      Declaration.Before :=
    List.pairwise_map.mpr (h.imp fun hbefore => hbefore.below key)
  have hheads : ((headKinds c (.object fields)).map (⟨[key], ·⟩)).Pairwise Declaration.Before :=
    List.pairwise_map.mpr ((pairwise_headKinds c _).imp fun hrank => .inr ⟨rfl, hrank⟩)
  -- The node, then what is said about it as a group, then what is in it.
  have hall : (⟨[key], .node⟩ :: ((headKinds c (.object fields)).map (⟨[key], ·⟩) ++
      (fieldDeclarations c fields).map (Declaration.below [key]))).Pairwise Declaration.Before := by
    refine List.pairwise_cons.mpr ⟨fun d hd => ?_, List.pairwise_append.mpr ⟨hheads, hbelow, ?_⟩⟩
    · rcases List.mem_append.mp hd with hd | hd
      · obtain ⟨kind, hkind, rfl⟩ := List.mem_map.mp hd
        cases kind with
        | node => exact absurd rfl (mem_headKinds.mp hkind).1
        | extension => exact .inr ⟨rfl, Nat.zero_lt_succ _⟩
        | root => exact .inr ⟨rfl, Nat.zero_lt_succ _⟩
      · obtain ⟨d', hd', rfl⟩ := List.mem_map.mp hd
        exact before_below _ (hpaths d' hd')
    · intro d hd d' hd'
      obtain ⟨kind, -, rfl⟩ := List.mem_map.mp hd
      obtain ⟨inner, hinner, rfl⟩ := List.mem_map.mp hd'
      exact before_below _ (hpaths inner hinner)
  rw [nodeDeclarations]
  split_ifs
  · exact List.Pairwise.nil
  · exact hall
  · exact List.pairwise_singleton _ _
  · exact (List.pairwise_cons.mp hall).2
  · exact List.Pairwise.nil

/-- The path of a declaration starts with the key under which it is. -/
lemma exists_path_of_mem_nodeDeclarations {c : Context} {key : String} {node : Value}
    {d : Declaration} (h : d ∈ nodeDeclarations c key node) : ∃ path, d.path = key :: path := by
  obtain ⟨-, _, -, ⟨rfl, -⟩ | ⟨-, ⟨_, -, rfl⟩ | ⟨d', -, rfl⟩⟩⟩ := mem_nodeDeclarations.mp h
  · exact ⟨[], rfl⟩
  · exact ⟨[], rfl⟩
  · exact ⟨d'.path, rfl⟩

/-- The declarations of a sorted object are in the order of the tree. -/
lemma pairwise_fieldDeclarations (c : Context) {v : Value} (hv : v.Sorted) {fields : Fields}
    (hfields : v = .object fields) :
    (fieldDeclarations c fields).Pairwise Declaration.Before := by
  induction hv generalizing fields with
  | @object own keys values ih =>
    cases hfields
    rw [fieldDeclarations_eq, List.pairwise_flatMap]
    constructor
    · rintro ⟨key, node⟩ hmem
      cases node with
      | object inner =>
        have hinner := values _ hmem
        refine pairwise_nodeDeclarations c key (fun d hd => ?_) (ih _ hmem rfl)
        exact ((mem_fieldDeclarations c hinner rfl d).mp hd).path_ne_nil
      | _ =>
        rw [nodeDeclarations]
        · exact List.Pairwise.nil
        · simp
    · -- Declarations under different keys come in the order of the keys.
      refine (List.pairwise_map.mp keys).imp ?_
      rintro ⟨key, node⟩ ⟨key', node'⟩ hlt d hd d' hd'
      obtain ⟨path, hpath⟩ := exists_path_of_mem_nodeDeclarations hd
      obtain ⟨path', hpath'⟩ := exists_path_of_mem_nodeDeclarations hd'
      rw [Declaration.Before, hpath, hpath']
      exact .inl (.rel (Text.utf8_lt hlt))
  | _ => cases hfields

end TokenFile

end DesignTokens
