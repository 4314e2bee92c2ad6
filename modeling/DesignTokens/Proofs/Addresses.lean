import DesignTokens.Proofs.ParsedTokens
import DesignTokens.Proofs.Publication

/-!
# The address of a file in resolution

Nothing in resolution reads the address that a token has of its file. So to resolve tokens with
another address gives the same tokens with that address (`Workspace.resolveBatch_withUri`), in the
registry too (`Registry.toList_ofList_withUri`). Each function on the way has its equation, from
what groups inherit to the pass over the places of a batch.
-/

namespace DesignTokens

/-! ## Groups that extend groups -/

namespace Inheritance

/-- What groups extend does not depend on the addresses. -/
lemma extensions_withUri (u : String) (tokens : List Token) :
    extensions (tokens.map (Token.withUri u)) = extensions tokens := by
  unfold extensions
  rw [List.filterMap_map]
  rfl

/-- The tokens of a group keep their order under other addresses. -/
lemma members_withUri (u : String) (tokens : List Token) (group : String) :
    members (tokens.map (Token.withUri u)) group =
      (members tokens group).map (Token.withUri u) := by
  unfold members
  rw [List.filter_map]
  rfl

lemma ownPaths_withUri (u : String) (tokens : List Token) (group : String) :
    ownPaths (tokens.map (Token.withUri u)) group = ownPaths tokens group := by
  simp only [ownPaths, members_withUri, List.filter_map, List.map_map]
  rfl

/-- A copy has the address of the token that it is a copy of. -/
lemma inherited_withUri (u : String) (tokens : List Token) (e : Extension) :
    inherited (tokens.map (Token.withUri u)) e = (inherited tokens e).map (Token.withUri u) := by
  simp only [inherited, members_withUri, ownPaths_withUri, List.filter_map, List.map_map]
  rfl

/-- The addresses pass through the inheritance of all groups. -/
lemma inheritAll_withUri (u : String) (all : List Extension) (groups : List String)
    (tokens : List Token) :
    inheritAll all groups (tokens.map (Token.withUri u)) =
      (inheritAll all groups tokens).map (Token.withUri u) := by
  induction groups generalizing tokens with
  | nil => rfl
  | cons group groups ih =>
    unfold inheritAll
    cases all.find? fun e => e.child = group with
    | none => exact ih tokens
    | some e =>
      simp only [inherited_withUri, ← List.map_append]
      exact ih (tokens ++ inherited tokens e)

/-- A batch is expanded in the same way, or refused with the same error, under other addresses. -/
lemma expand_withUri (u : String) (tokens : List Token) :
    expand (tokens.map (Token.withUri u)) =
      (expand tokens).map fun expanded => expanded.map (Token.withUri u) := by
  simp only [expand, extensions_withUri]
  cases (graph (extensions tokens)).order with
  | error e => rfl
  | ok groups => exact congrArg Except.ok (inheritAll_withUri u _ groups tokens)

end Inheritance

/-! ## References -/

namespace Resolution

/-- The failure of a token with another address of its file. -/
def Failure.withUri (u : String) (f : Failure) : Failure :=
  { f with token := f.token.withUri u }

/-- Addresses play no part in what tokens refer to. -/
lemma ofTokens_withUri (u : String) (tokens : List Token) (version : Version) :
    Graph.ofTokens (tokens.map (Token.withUri u)) version = Graph.ofTokens tokens version :=
  Graph.ofTokens_map (Token.withUri u) (fun _ => rfl) (fun _ => rfl) tokens

lemma places_withUri (u : String) (tokens : List Token) (name : String) :
    places (tokens.map (Token.withUri u)) name = places tokens name :=
  places_map (Token.withUri u) (fun _ => rfl) tokens name

lemma first_withUri (u : String) (tokens : List Token) (name : String) :
    first (tokens.map (Token.withUri u)) name = (first tokens name).map (Token.withUri u) := by
  unfold first
  rw [List.find?_map]
  rfl

/-- A reference leads to the same value. -/
lemma dereference_withUri (u : String) (tokens : List Token) (name reference : String) :
    dereference (first (tokens.map (Token.withUri u))) name reference =
      dereference (first tokens) name reference := by
  unfold dereference
  rw [first_withUri]
  cases first tokens name with
  | none => rfl
  | some target => rfl

/-- The value of a token does not depend on the addresses of the batch. -/
lemma resolvedValue_withUri (u : String) (t : Token) (tokens : List Token) (version : Version) :
    resolvedValue (t.withUri u) (first (tokens.map (Token.withUri u))) version =
      resolvedValue t (first tokens) version := by
  unfold resolvedValue
  simp only [dereference_withUri]
  rfl

/-- A token is resolved, or fails, as it does under other addresses. -/
lemma resolveToken_withUri (u : String) (t : Token) (tokens : List Token) (version : Version) :
    resolveToken (t.withUri u) (first (tokens.map (Token.withUri u))) version =
      (resolveToken t (first tokens) version).map (Token.withUri u) := by
  have hresolved : (t.withUri u).isResolved = t.isResolved := rfl
  have hversion : (t.withUri u).effectiveVersion version = t.effectiveVersion version := rfl
  unfold resolveToken
  rw [hresolved, hversion, resolvedValue_withUri]
  split_ifs
  · rfl
  · cases resolvedValue t (first tokens) (t.effectiveVersion version) with
    | ok v => rfl
    | error e => rfl

/-- A pass in which broken references are left takes the same course. -/
lemma pass_withUri (u : String) (version : Version) (work : List Nat) (tokens : List Token) :
    pass .lenient version work (tokens.map (Token.withUri u)) =
      ((pass .lenient version work tokens).1.map (Token.withUri u),
        (pass .lenient version work tokens).2.map fun failures =>
          failures.map (Failure.withUri u)) := by
  induction work generalizing tokens with
  | nil => rfl
  | cons i rest ih =>
    unfold pass
    rw [List.getElem?_map]
    cases tokens[i]? with
    | none => exact ih tokens
    | some t =>
      simp only [Option.map_some, resolveToken_withUri]
      cases resolveToken t (first tokens) version with
      | ok t' =>
        simp only [Except.map]
        rw [← List.map_set]
        exact ih (tokens.set i t')
      | error e =>
        have hreported : (reported? (t.withUri u) e).toList =
            (reported? t e).toList.map (Failure.withUri u) := by
          cases e with
          | unresolvedDependency reference => rfl
          | _ => rfl
        simp only [Except.map, ih tokens, hreported]
        cases (pass .lenient version rest tokens).2 with
        | ok failures => simp
        | error e' => rfl

lemma lenient_withUri (u : String) (tokens : List Token) (version : Version) :
    lenient (tokens.map (Token.withUri u)) version =
      ((lenient tokens version).1.map (Token.withUri u),
        (lenient tokens version).2.map fun failures => failures.map (Failure.withUri u)) := by
  unfold lenient inOrder
  rw [ofTokens_withUri]
  cases (Graph.ofTokens tokens version).order with
  | error e => rfl
  | ok names =>
    have hplaces : names.flatMap (places (tokens.map (Token.withUri u))) =
        names.flatMap (places tokens) :=
      congrArg names.flatMap (funext (places_withUri u tokens))
    simp only [hplaces]
    exact pass_withUri u version _ tokens

end Resolution

/-! ## Batches -/

namespace Workspace

lemma withoutMarkers_withUri (u : String) (tokens : List Token) :
    withoutMarkers (tokens.map (Token.withUri u)) =
      (withoutMarkers tokens).map (Token.withUri u) := by
  unfold withoutMarkers
  rw [List.filter_map]
  rfl

lemma batchVersion_withUri (u : String) (tokens : List Token) :
    batchVersion (tokens.map (Token.withUri u)) = batchVersion tokens := by
  unfold batchVersion
  rw [List.any_map]
  rfl

/-- A batch resolves to the same values and failures, or the same error, under other addresses. -/
lemma resolveBatch_withUri (u : String) (batch : List Token) :
    resolveBatch (batch.map (Token.withUri u)) =
      (resolveBatch batch).map fun resolved =>
        (resolved.1.map (Token.withUri u), resolved.2.map (Resolution.Failure.withUri u)) := by
  unfold resolveBatch
  rw [Inheritance.expand_withUri]
  cases Inheritance.expand batch with
  | error e => rfl
  | ok expanded =>
    simp only [Except.map, withoutMarkers_withUri, batchVersion_withUri,
      Resolution.lenient_withUri]
    obtain ⟨resolved, result⟩ := Resolution.lenient (withoutMarkers expanded)
      (batchVersion (withoutMarkers expanded))
    cases result with
    | ok failures => rfl
    | error e => rfl

end Workspace

/-! ## Registries -/

namespace Registry

/-- A key is overwritten or appended whatever the addresses are. -/
lemma inserted_withUri (u : String) (tokens : List Token) (t : Token) :
    inserted (tokens.map (Token.withUri u)) (t.withUri u) =
      (inserted tokens t).map (Token.withUri u) := by
  have hiff : (∃ v ∈ tokens.map (Token.withUri u), v.key = (t.withUri u).key) ↔
      ∃ v ∈ tokens, v.key = t.key := by
    simp only [List.mem_map, exists_exists_and_eq_and]
    rfl
  unfold inserted
  simp only [hiff]
  split_ifs
  · rw [List.map_map, List.map_map]
    refine List.map_congr_left fun v _ => ?_
    have hkey : (v.withUri u).key = v.key ∧ (t.withUri u).key = t.key := ⟨rfl, rfl⟩
    rw [Function.comp_apply, Function.comp_apply, hkey.1, hkey.2]
    split_ifs
    · rfl
    · rfl
  · rw [List.map_append]
    rfl

/-- The registry of tokens with other addresses lists them at the same places. -/
lemma toList_ofList_withUri (u : String) (tokens : List Token) :
    (ofList (tokens.map (Token.withUri u))).toList =
      (ofList tokens).toList.map (Token.withUri u) := by
  induction tokens using List.reverseRecOn with
  | nil => rfl
  | append_singleton tokens t ih =>
    rw [List.map_append, List.map_singleton, toList_ofList_concat, toList_ofList_concat, ih,
      inserted_withUri]

end Registry

end DesignTokens
