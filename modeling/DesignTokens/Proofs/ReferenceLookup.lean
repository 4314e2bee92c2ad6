import DesignTokens.Proofs.Publication
import DesignTokens.Proofs.ResolutionStability

/-!
# What a look-up finds is what was dereferenced

A reference is read twice: when its token is resolved, in the batch as it stands then (`batchAt`),
and when somebody asks the registry for it afterwards. The first takes the first token of the batch
with the name, the second the oldest token of the registry with the name that the query means. For
a batch that the registry takes as it is, both are the same token in the same state
(`lookup_eq_dereferenced`): the target was dealt with before, so it no longer changes.
-/

namespace DesignTokens

/-! ## The registry of a batch -/

namespace Registry

/-- The registry of tokens with different keys has them as they are. -/
lemma toList_ofList_of_nodup {tokens : List Token} (h : (tokens.map Token.key).Nodup) :
    (ofList tokens).toList = tokens := by
  induction tokens using List.reverseRecOn with
  | nil => rfl
  | append_singleton tokens t ih =>
    rw [List.map_append, List.nodup_append] at h
    obtain ⟨htokens, -, hnew⟩ := h
    have hfresh : ¬ ∃ u ∈ tokens, u.key = t.key := by
      rintro ⟨u, hu, hkey⟩
      exact hnew u.key (List.mem_map_of_mem hu) t.key (List.mem_singleton_self _) hkey
    rw [toList_ofList_concat, ih htokens, inserted, if_neg hfresh]

/-- A CSS variable starts with two hyphens, also as the name that it gives as a path. -/
lemma hyphens_dottedToName_cssVariable (t : Token) :
    "--".toList <+: (Reference.dottedToName t.cssVariable).toList := by
  obtain ⟨start, hstart⟩ := t.exists_cssVariable_eq
  have hname : (Reference.dottedToName t.cssVariable).toList
      = "--".toList ++ (start ++ t.name).toList.map fun c => if c = '.' then '-' else c := by
    simp [hstart, Reference.dottedToName, Text.replaceChar]
  rw [hname]
  exact List.prefix_append _ _

/-- A path whose name does not start as a CSS variable finds the first token of that name. -/
lemma find?_ofList {tokens : List Token} (hkeys : (tokens.map Token.key).Nodup)
    (hfiles : ∀ t ∈ tokens, t.filePath ≠ "") {path : String}
    (hstart : ¬ "--".toList <+: (Reference.dottedToName path).toList) :
    (ofList tokens).find? path = Resolution.first tokens (Reference.dottedToName path) := by
  have hlist := toList_ofList_of_nodup hkeys
  have hquery : queryName path = Reference.dottedToName path :=
    (queryName_eq_dottedToName_iff path).mpr hstart
  have hfile : tokens.find? (fun t => t.filePath = "" ∧ t.name = path) = none := by
    rw [List.find?_eq_none]
    intro t ht
    simp [hfiles t ht]
  have hvariable : tokens.find? (fun t => t.cssVariable = path) = none := by
    rw [List.find?_eq_none]
    intro t _ heq
    rw [← of_decide_eq_true heq] at hstart
    exact hstart (hyphens_dottedToName_cssVariable t)
  have hfind := (valid_ofList tokens).find?_eq path
  rw [hfind, hlist, hquery, hfile, hvariable, Option.none_or, Option.or_none]
  rfl

end Registry

namespace Resolution

variable {tokens : List Token} {version : Version}

/-! ## Looking up in a resolved batch -/

namespace Complete

variable {tokens' : List Token}

lemma first_eq_none (h : Complete tokens version tokens') {name : String} :
    first tokens' name = none ↔ firstPlace? tokens name = none := by
  rw [h.first_eq]
  cases hj : firstPlace? tokens name with
  | none => simp
  | some j =>
    obtain ⟨s, hs, -⟩ := name_of_firstPlace? hj
    obtain ⟨u, hu, -⟩ := h.settled j s hs
    simp [hu]

/-- The registry takes a resolved batch as it is if it would take the batch, and so finds the first
token of a name. -/
lemma find?_ofList (h : Complete tokens version tokens') (hkeys : (tokens.map Token.key).Nodup)
    (hfiles : ∀ t ∈ tokens, t.filePath ≠ "") {path : String}
    (hstart : ¬ "--".toList <+: (Reference.dottedToName path).toList) :
    (Registry.ofList tokens').find? path = first tokens' (Reference.dottedToName path) := by
  have hkeys' : tokens'.map Token.key = tokens.map Token.key :=
    h.map_eq Token.key fun _ _ => rfl
  refine Registry.find?_ofList (hkeys' ▸ hkeys) (fun t' ht' => ?_) hstart
  have hfile : t'.filePath ∈ tokens'.map Token.filePath := List.mem_map_of_mem ht'
  rw [h.map_eq Token.filePath fun _ _ => rfl, List.mem_map] at hfile
  obtain ⟨t, ht, heq⟩ := hfile
  exact heq ▸ hfiles t ht

end Complete

/-! ## The batch at a place -/

/-- The batch as it stands when a lenient run comes to a place. -/
def batchAt (tokens : List Token) (version : Version) (i : Nat) : List Token :=
  match (Graph.ofTokens tokens version).order with
  | .error _ => tokens
  | .ok names =>
    (pass .lenient version ((names.flatMap (places tokens)).takeWhile (· ≠ i)) tokens).1

/-- A pass leaves a place as resolving its token leaves it, in the batch as it stands then. -/
lemma getElem?_pass_lenient (version : Version) {work : List Nat} (hwork : work.Nodup) {i : Nat}
    (hi : i ∈ work) {t : Token} (ht : tokens[i]? = some t) :
    (pass .lenient version work tokens).1[i]? = some
      ((resolveToken t (first (pass .lenient version (work.takeWhile (· ≠ i)) tokens).1)
        version).toOption.getD t) := by
  induction work generalizing tokens with
  | nil => cases hi
  | cons k work ih =>
    obtain ⟨hk, hwork⟩ := List.nodup_cons.mp hwork
    have hlt : i < tokens.length := (List.getElem?_eq_some_iff.mp ht).1
    by_cases hki : k = i
    · subst hki
      rw [List.takeWhile_cons_of_neg (by simp)]
      -- The place itself: nothing comes before, and nothing after comes back to it.
      cases hresult : resolveToken t (first tokens) version with
      | ok t' =>
        rw [pass_cons_of_ok .lenient work ht hresult, getElem?_pass_of_notMem .lenient version hk,
          List.getElem?_set_self hlt]
        simp [pass, hresult, Except.toOption]
      | error e =>
        rw [pass_lenient_cons_of_error work ht hresult, getElem?_pass_of_notMem .lenient version hk]
        simp [pass, hresult, Except.toOption, ht]
    · have hi : i ∈ work := (List.mem_cons.mp hi).resolve_left (Ne.symm hki)
      rw [List.takeWhile_cons_of_pos (by simpa using hki)]
      cases hu : tokens[k]? with
      | none =>
        rw [pass_cons_of_none .lenient version _ hu, pass_cons_of_none .lenient version _ hu]
        exact ih hwork hi ht
      | some u =>
        cases hresult : resolveToken u (first tokens) version with
        | ok u' =>
          rw [pass_cons_of_ok .lenient _ hu hresult, pass_cons_of_ok .lenient _ hu hresult]
          exact ih hwork hi (by rw [List.getElem?_set_ne hki, ht])
        | error e =>
          rw [pass_lenient_cons_of_error _ hu hresult, pass_lenient_cons_of_error _ hu hresult]
          exact ih hwork hi ht

/-- The places that a run comes to, in their order. -/
lemma exists_work {tokens' : List Token} {failures : List Failure}
    (hrun : lenient tokens version = (tokens', .ok failures)) :
    ∃ work, Stage tokens version [] work tokens ∧ (∀ i < tokens.length, i ∈ work) ∧
      (pass .lenient version work tokens).1 = tokens' ∧
      ∀ i, batchAt tokens version i
        = (pass .lenient version (work.takeWhile (· ≠ i)) tokens).1 := by
  obtain ⟨names, horder⟩ := order_of_lenient hrun
  rw [lenient, inOrder_of_order .lenient horder] at hrun
  refine ⟨_, stage_of_order horder, fun i hi => ?_, congrArg Prod.fst hrun, fun i => ?_⟩
  · exact (places_of_order horder).2.mem_iff.mpr (List.mem_range.mpr hi)
  · rw [batchAt, horder]

/-- The target of a link is as the run leaves it when the run comes to the link. -/
lemma first_batchAt {tokens' : List Token} {failures : List Failure}
    (hrun : lenient tokens version = (tokens', .ok failures)) {i : Nat} {t : Token} {l : Link}
    (ht : tokens[i]? = some t) (hres : t.isResolved = false) (hlink : link? version t = some l) :
    first (batchAt tokens version i) l.name = first tokens' l.name := by
  obtain ⟨hcomplete, -⟩ := complete_of_lenient hrun
  obtain ⟨work, hstage, hall, -, hbatch⟩ := exists_work hrun
  -- The work splits at the place.
  obtain ⟨after, hafter⟩ := dropWhile_ne_of_mem (hall i (List.getElem?_eq_some_iff.mp ht).1)
  have hsplit : work = work.takeWhile (· ≠ i) ++ i :: after := by
    rw [← hafter, List.takeWhile_append_dropWhile]
  rw [hbatch]
  generalize work.takeWhile (· ≠ i) = before at hsplit
  subst hsplit
  obtain ⟨current, hpass, hprogress⟩ := pass_lenient hstage.of_append
  rw [hpass, hprogress.first_eq, hcomplete.first_eq]
  cases hj : firstPlace? tokens l.name with
  | none => rfl
  | some j =>
    -- The target comes before the link, so it is final when the link is read.
    have hbefore : j ∈ before :=
      (hstage.targetsFirst.mem_front ⟨t, l, ht, hres, hlink, hj⟩).resolve_left List.not_mem_nil
    obtain ⟨u, hu, -⟩ := name_of_firstPlace? hj
    obtain ⟨u', hu', hsettled'⟩ := hcomplete.settled j u hu
    obtain ⟨u'', hu'', hsettled''⟩ := hprogress.settled j (by simpa using hbefore) u hu
    rw [Option.bind_some, Option.bind_some, hu', hu'', hsettled'.unique hsettled'']

/-- A run leaves a place as resolving its token leaves it, in the batch as it stands then. -/
lemma getElem?_lenient {tokens' : List Token} {failures : List Failure}
    (hrun : lenient tokens version = (tokens', .ok failures)) {i : Nat} {t : Token}
    (ht : tokens[i]? = some t) :
    tokens'[i]? = some
      ((resolveToken t (first (batchAt tokens version i)) version).toOption.getD t) := by
  obtain ⟨work, hstage, hall, hpass, hbatch⟩ := exists_work hrun
  rw [hbatch, ← hpass]
  exact getElem?_pass_lenient version hstage.nodup (hall i (List.getElem?_eq_some_iff.mp ht).1) ht

/-! ## Reading a reference twice -/

/-- Resolving a token whose link leads to `u`. -/
lemma resolveToken_of_link {t u : Token} {l : Link} {find : String → Option Token}
    (hres : t.isResolved = false) (hlink : link? version t = some l) (hu : find l.name = some u) :
    (∃ v, u.isResolved = true ∧ u.resolvedValue = some v ∧
      resolveToken t find version = .ok (t.markResolved v)) ∨
    ((u.isResolved = true → u.resolvedValue = none) ∧
      ∃ e, resolveToken t find version = .error e) := by
  unfold resolveToken
  rw [resolvedValue_eq, hlink, hres]
  simp only [Bool.false_eq_true, if_false, dereference, hu]
  cases hures : u.isResolved with
  | false => exact .inr ⟨fun h => absurd h Bool.false_ne_true, _, rfl⟩
  | true =>
    cases huv : u.resolvedValue with
    | none => exact .inr ⟨fun _ => rfl, _, rfl⟩
    | some v => exact .inl ⟨v, rfl, rfl, rfl⟩

/-- A token is reported exactly if its link names no token. -/
lemma reported_iff {tokens' : List Token} {failures : List Failure}
    (hrun : lenient tokens version = (tokens', .ok failures)) {i : Nat} {t : Token} {l : Link}
    (ht : tokens[i]? = some t) (hres : t.isResolved = false) (hlink : link? version t = some l) :
    (∃ r, ⟨t, .missingReference r⟩ ∈ failures) ↔ firstPlace? tokens l.name = none := by
  obtain ⟨-, hfailures⟩ := complete_of_lenient hrun
  have hown : failure? tokens version t = _ := failure?_of_link hres hlink
  simp only [hfailures.mem_iff, List.mem_filterMap]
  constructor
  · rintro ⟨r, u, -, hu⟩
    obtain rfl : t = u := token_of_failure? hu
    by_contra hsome
    rw [hown, if_neg hsome] at hu
    cases hu
  · intro hnone
    refine ⟨l.written, t, List.mem_of_getElem? ht, ?_⟩
    rw [hown, if_pos hnone]

/-- A token with a link ends as the target of the link does: resolved to the same value, or as it
was. -/
lemma exists_like_target {tokens' : List Token} {failures : List Failure} (hc : Consistent tokens)
    (hrun : lenient tokens version = (tokens', .ok failures)) {i : Nat} {t u : Token} {l : Link}
    (ht : tokens[i]? = some t) (hres : t.isResolved = false) (hlink : link? version t = some l)
    (hu : first tokens' l.name = some u) :
    ∃ t', tokens'[i]? = some t' ∧ (t'.isResolved = true ↔ u.isResolved = true) ∧
      (t'.isResolved = true → t'.resolvedValue = u.resolvedValue) ∧
      (t'.isResolved = false → t' = t) := by
  obtain ⟨hcomplete, -⟩ := complete_of_lenient hrun
  refine ⟨_, getElem?_lenient hrun ht, ?_⟩
  have hread : first (batchAt tokens version i) l.name = some u :=
    (first_batchAt hrun ht hres hlink).trans hu
  rcases resolveToken_of_link hres hlink hread with ⟨v, hures, huv, hok⟩ | ⟨hnone, e, herror⟩
  · rw [hok]
    simp [Except.toOption, Token.markResolved, hures, huv]
  · -- A target that is resolved has its value, so this one is not.
    have hures : u.isResolved = false := by
      by_contra htrue
      rw [Bool.not_eq_false] at htrue
      have hvalue := hcomplete.consistent hc u (List.mem_of_find?_eq_some hu) htrue
      rw [hnone htrue] at hvalue
      cases hvalue
    rw [herror]
    simp [Except.toOption, hres, hures]

/-- What a look-up finds for a reference is what was dereferenced. The registry of a resolved batch
has nothing for it exactly if the token with the reference was reported. What it has otherwise is
the token that the resolver read, as it was then; the token with the reference is resolved if that
one is, to the same value, and else both are as they were on entry. -/
theorem lookup_eq_dereferenced {tokens' : List Token} {failures : List Failure}
    (hkeys : (tokens.map Token.key).Nodup) (hfiles : ∀ t ∈ tokens, t.filePath ≠ "")
    (hc : Consistent tokens) (hrun : lenient tokens version = (tokens', .ok failures))
    {i : Nat} {t : Token} {path : String} (ht : tokens[i]? = some t) (hraw : t.rawValue = none)
    (hres : t.isResolved = false) (hpath : Reference.wholePath? t.value = some path)
    (hstart : ¬ "--".toList <+: (Reference.dottedToName path).toList) :
    (Registry.ofList tokens').find? path =
      first (batchAt tokens version i) (Reference.dottedToName path) ∧
    ((Registry.ofList tokens').find? path = none ↔ ∃ r, ⟨t, .missingReference r⟩ ∈ failures) ∧
    ∀ u, (Registry.ofList tokens').find? path = some u →
      ∃ j t', firstPlace? tokens (Reference.dottedToName path) = some j ∧ tokens'[j]? = some u ∧
        tokens'[i]? = some t' ∧ (t'.isResolved = true ↔ u.isResolved = true) ∧
        (t'.isResolved = true → t'.resolvedValue = u.resolvedValue) ∧
        (t'.isResolved = false → t' = t ∧ tokens[j]? = some u) := by
  have hlink : link? version t = some ⟨Reference.dottedToName path, path⟩ :=
    link?_eq_some.mpr ⟨hraw, .inl ⟨path, hpath, rfl⟩⟩
  obtain ⟨hcomplete, -⟩ := complete_of_lenient hrun
  rw [hcomplete.find?_ofList hkeys hfiles hstart]
  refine ⟨(first_batchAt hrun ht hres hlink).symm, ?_, fun u hu => ?_⟩
  · rw [reported_iff hrun ht hres hlink, hcomplete.first_eq_none]
  · obtain ⟨t', ht', hiff, hvalue, hkept⟩ := exists_like_target hc hrun ht hres hlink hu
    rw [hcomplete.first_eq] at hu
    obtain ⟨j, hj, hju⟩ := Option.bind_eq_some_iff.mp hu
    refine ⟨j, t', hj, hju, ht', hiff, hvalue, fun hfalse => ⟨hkept hfalse, ?_⟩⟩
    have hures : u.isResolved = false := by
      rw [Bool.eq_false_iff] at hfalse ⊢
      exact mt hiff.mpr hfalse
    exact hcomplete.getElem?_of_unresolved hju hures

/-- A name that two files have, a link to it, a link to a token that is not there, and a link to
that one. -/
def twoFiles : List Token :=
  [{ name := "accent", value := "{color.brand}", filePath := "a.json" },
   { name := "color-brand", value := "#f00", filePath := "a.json" },
   { name := "color-brand", value := "#00f", filePath := "b.json" },
   { name := "typo", value := "{color.nope}", filePath := "b.json" },
   { name := "behind", value := "{typo}", filePath := "b.json" }]

theorem lookup_eq_dereferenced_shared :
    (twoFiles.map Token.key).Nodup ∧ (∀ t ∈ twoFiles, t.filePath ≠ "") ∧ Consistent twoFiles ∧
    (∃ u t', (Registry.ofList (lenient twoFiles .draft).1).find? "color.brand" = some u ∧
      u.resolvedValue = some (.string "#f00") ∧ (lenient twoFiles .draft).1[0]? = some t' ∧
      (t'.isResolved = true ↔ u.isResolved = true) ∧
      (t'.isResolved = true → t'.resolvedValue = u.resolvedValue)) ∧
    (Registry.ofList (lenient twoFiles .draft).1).find? "color.nope" = none := by
  have hkeys : (twoFiles.map Token.key).Nodup := by decide
  have hfiles : ∀ t ∈ twoFiles, t.filePath ≠ "" := by decide
  have hc : Consistent twoFiles := by decide
  have hrun : lenient twoFiles .draft = ((lenient twoFiles .draft).1, .ok
      [⟨{ name := "typo", value := "{color.nope}", filePath := "b.json" },
        .missingReference "color.nope"⟩]) := rfl
  have hread : (first (batchAt twoFiles .draft 0) "color-brand").map Token.resolvedValue
      = some (some (.string "#f00")) := rfl
  have haccent : twoFiles[0]? = some
      { name := "accent", value := "{color.brand}", filePath := "a.json" } := rfl
  have htypo : twoFiles[3]? = some
      { name := "typo", value := "{color.nope}", filePath := "b.json" } := rfl
  have hbrandPath : Reference.wholePath? "{color.brand}" = some "color.brand" := rfl
  have hnopePath : Reference.wholePath? "{color.nope}" = some "color.nope" := rfl
  have hbrandName : Reference.dottedToName "color.brand" = "color-brand" := rfl
  generalize (lenient twoFiles .draft).1 = resolved at *
  obtain ⟨hbrand, -, hlike⟩ :=
    lookup_eq_dereferenced hkeys hfiles hc hrun haccent rfl rfl hbrandPath (by decide)
  obtain ⟨-, hnope, -⟩ :=
    lookup_eq_dereferenced hkeys hfiles hc hrun htypo rfl rfl hnopePath (by decide)
  refine ⟨hkeys, hfiles, hc, ?_, hnope.mpr ⟨_, List.mem_singleton_self _⟩⟩
  obtain ⟨u, hu, hvalue⟩ := Option.map_eq_some_iff.mp hread
  rw [← hbrandName, ← hbrand] at hu
  obtain ⟨_, t', -, -, ht', hiff, hsame, -⟩ := hlike u hu
  exact ⟨u, t', hu, hvalue, ht', hiff, hsame⟩

end Resolution

end DesignTokens
