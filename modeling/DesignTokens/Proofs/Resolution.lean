import DesignTokens.Proofs.ResolutionPass

/-!
# Resolving a batch

What the two modes of resolution do to a batch, in terms of its equations and of the references
between its names. In both a cycle of references refuses the batch. The strict mode fails at a
broken link and otherwise resolves every token to the only solution of the equations
(`strict_ok_solution`, `strict_outcome`). The lenient mode reports the broken links, leaves the
places that are lost as they were and resolves all others (`lenient_outcome`).
-/

namespace DesignTokens

namespace Resolution

variable {tokens : List Token} {version : Version}

/-! ## A batch that is dealt with -/

/-- Every place of the batch was dealt with. -/
structure Complete (tokens : List Token) (version : Version) (tokens' : List Token) : Prop where
  length_eq : tokens'.length = tokens.length
  settled : ∀ i t, tokens[i]? = some t →
    ∃ t', tokens'[i]? = some t' ∧ Settled tokens version i t t'

/-- The resolved value at a place. -/
def valueAt (tokens : List Token) (i : Nat) : Json.Value :=
  ((tokens[i]?).bind Token.resolvedValue).getD .null

lemma Progress.complete {done : List Nat} {tokens' : List Token}
    (h : Progress tokens version done tokens') (hdone : ∀ i < tokens.length, i ∈ done) :
    Complete tokens version tokens' :=
  ⟨h.length_eq, fun i t ht => h.settled i (hdone i (List.getElem?_eq_some_iff.mp ht).1) t ht⟩

lemma Denotes.exists_token {i : Nat} {v : Json.Value} (h : Denotes tokens version i v) :
    ∃ t, tokens[i]? = some t := by
  cases h with
  | entry ht => exact ⟨_, ht⟩
  | own ht => exact ⟨_, ht⟩
  | link ht => exact ⟨_, ht⟩

lemma Complete.getElem?_of_denotes {tokens' : List Token} (h : Complete tokens version tokens')
    {i : Nat} {t : Token} {v : Json.Value} (ht : tokens[i]? = some t)
    (hv : Denotes tokens version i v) : tokens'[i]? = some (t.markResolved v) := by
  obtain ⟨t', ht', ⟨w, hw, rfl⟩ | ⟨hnone, -⟩⟩ := h.settled i t ht
  · rw [ht', hv.unique hw]
  · exact absurd hv (hnone v)

namespace Complete

variable {tokens' : List Token}

lemma getElem?_of_none (h : Complete tokens version tokens') {i : Nat} (ht : tokens[i]? = none) :
    tokens'[i]? = none := by
  rw [List.getElem?_eq_none_iff] at ht ⊢
  rw [h.length_eq]
  exact ht

/-- Each token of the result comes from the token at its place. -/
lemma exists_settled (h : Complete tokens version tokens') {i : Nat} {t' : Token}
    (ht' : tokens'[i]? = some t') :
    ∃ t, tokens[i]? = some t ∧ Settled tokens version i t t' := by
  have hlt : i < tokens.length := h.length_eq ▸ (List.getElem?_eq_some_iff.mp ht').1
  have ht : tokens[i]? = some tokens[i] := List.getElem?_eq_getElem hlt
  obtain ⟨u, hu, hsettled⟩ := h.settled i _ ht
  cases ht'.symm.trans hu
  exact ⟨_, ht, hsettled⟩

/-- What resolving a token does not change is the same all over the batch. -/
lemma map_eq {β : Type} (h : Complete tokens version tokens') (f : Token → β)
    (hf : ∀ t v, f (t.markResolved v) = f t) : tokens'.map f = tokens.map f := by
  refine List.ext_getElem (by rw [List.length_map, List.length_map, h.length_eq]) fun i hi hi' => ?_
  rw [List.length_map] at hi
  obtain ⟨t, ht, hsettled⟩ := h.exists_settled (List.getElem?_eq_getElem hi)
  obtain ⟨_, rfl⟩ := List.getElem?_eq_some_iff.mp ht
  rw [List.getElem_map, List.getElem_map]
  rcases hsettled with ⟨v, -, heq⟩ | ⟨-, heq⟩
  · rw [heq, hf]
  · rw [heq]

lemma firstPlace?_eq (h : Complete tokens version tokens') (name : String) :
    firstPlace? tokens' name = firstPlace? tokens name :=
  firstPlace?_congr (h.map_eq Token.name fun _ _ => rfl) name

/-- A token that the result leaves unresolved is the one of the batch. -/
lemma getElem?_of_unresolved (h : Complete tokens version tokens') {i : Nat} {t' : Token}
    (ht' : tokens'[i]? = some t') (hres : t'.isResolved = false) : tokens[i]? = some t' := by
  obtain ⟨t, ht, ⟨v, -, rfl⟩ | ⟨-, rfl⟩⟩ := h.exists_settled ht'
  · cases hres
  · exact ht

/-- No token of a consistent batch becomes resolved without its value. -/
lemma consistent (h : Complete tokens version tokens') (hc : Consistent tokens) :
    Consistent tokens' := by
  intro t' ht' hres
  obtain ⟨i, hi⟩ := List.mem_iff_getElem?.mp ht'
  obtain ⟨t, ht, ⟨v, -, rfl⟩ | ⟨-, rfl⟩⟩ := h.exists_settled hi
  · rfl
  · exact hc t' (List.mem_of_getElem? ht) hres

lemma first_eq (h : Complete tokens version tokens') (name : String) :
    first tokens' name = (firstPlace? tokens name).bind fun j => tokens'[j]? := by
  rw [Resolution.first_eq, h.firstPlace?_eq]

end Complete

/-- The resolved values are those that the equations give. -/
lemma Complete.valueAt_eq {tokens' : List Token} (h : Complete tokens version tokens') {i : Nat}
    {v : Json.Value} (hv : Denotes tokens version i v) : valueAt tokens' i = v := by
  obtain ⟨t, ht⟩ := hv.exists_token
  rw [valueAt, h.getElem?_of_denotes ht hv]
  rfl

/-- At places that links do not lead out of, and where the equations give values, the resolved
values are the only solution. -/
lemma Complete.solution {tokens' : List Token} (h : Complete tokens version tokens')
    (inside : Nat → Prop) (hclosed : ∀ i j, inside i → Follows tokens version i j → inside j)
    (hvalue : ∀ i < tokens.length, inside i → ∃ v, Denotes tokens version i v) :
    (∀ i t, inside i → tokens[i]? = some t →
      tokens'[i]? = some { t with resolvedValue := some (valueAt tokens' i), isResolved := true } ∧
        EquationAt tokens version (valueAt tokens') i t) ∧
    ∀ val, (∀ i t, inside i → tokens[i]? = some t → EquationAt tokens version val i t) →
      ∀ i < tokens.length, inside i → val i = valueAt tokens' i := by
  constructor
  · intro i t hi ht
    obtain ⟨v, hv⟩ := hvalue i (List.getElem?_eq_some_iff.mp ht).1 hi
    rw [h.getElem?_of_denotes ht hv, h.valueAt_eq hv]
    exact ⟨rfl, hv.equationAt (fun j w hw => h.valueAt_eq hw) ht⟩
  · intro val hval i hlt hi
    obtain ⟨v, hv⟩ := hvalue i hlt hi
    rw [h.valueAt_eq hv]
    exact hv.eq_of_equations hclosed hval hi

/-! ## The outcomes -/

/-- Both modes pass over the places in the order of the graph. -/
lemma inOrder_of_order (mode : Mode) {names : List String}
    (h : (Graph.ofTokens tokens version).order = .ok names) :
    inOrder mode tokens version = pass mode version (names.flatMap (places tokens)) tokens := by
  rw [inOrder, h]

/-- A cycle of references refuses the batch in both modes. -/
lemma inOrder_of_cyclic (mode : Mode) (h : Cyclic (RefersTo tokens version)) :
    ∃ cycle, inOrder mode tokens version = (tokens, .error (.circular cycle)) := by
  rw [← Graph.dependsOn_ofTokens_eq] at h
  obtain ⟨cycle, hcycle, -⟩ := Graph.order_of_cyclic h
  exact ⟨cycle, by rw [inOrder, hcycle]⟩

/-- Without a cycle the batch is passed over in an order of its places. -/
lemma inOrder_of_not_cyclic (mode : Mode) (h : ¬ Cyclic (RefersTo tokens version)) :
    ∃ work, inOrder mode tokens version = pass mode version work tokens ∧
      Stage tokens version [] work tokens ∧ work.Perm (List.range tokens.length) := by
  rw [← Graph.dependsOn_ofTokens_eq] at h
  have horder := Graph.order_of_not_cyclic h
  exact ⟨_, by rw [inOrder, horder], stage_of_order horder, (places_of_order horder).2⟩

/-- The three outcomes of the strict mode. -/
lemma strict_cases (version : Version) (hc : Consistent tokens) :
    (Cyclic (RefersTo tokens version) ∧
      ∃ cycle, strict tokens version = (tokens, .error (.circular cycle))) ∨
    (¬ Cyclic (RefersTo tokens version) ∧ (∃ t ∈ tokens, IsBroken tokens version t) ∧
      ∃ r, strict tokens version = (tokens, .error (.missingReference r))) ∨
    (¬ Cyclic (RefersTo tokens version) ∧
      (∀ i < tokens.length, ∃ v, Denotes tokens version i v) ∧
      ∃ tokens', strict tokens version = (tokens', .ok ()) ∧ Complete tokens version tokens') := by
  by_cases hcyclic : Cyclic (RefersTo tokens version)
  · obtain ⟨cycle, hcycle⟩ := inOrder_of_cyclic .strict hcyclic
    exact .inl ⟨hcyclic, cycle, by rw [strict, hcycle]⟩
  · obtain ⟨work, hpass, hstage, hperm⟩ := inOrder_of_not_cyclic .strict hcyclic
    have hmem : ∀ i < tokens.length, i ∈ work :=
      fun i hi => hperm.mem_iff.mpr (List.mem_range.mpr hi)
    rcases pass_strict hc hstage (by simp) with ⟨tokens', failures, hok, hprogress, hall⟩ |
      ⟨tokens', r, herror, hbroken⟩
    · refine .inr (.inr ⟨hcyclic, fun i hi => hall i (hmem i hi), tokens', ?_, ?_⟩)
      · rw [strict, hpass, hok]
      · exact hprogress.complete fun i hi => by simpa using hmem i hi
    · exact .inr (.inl ⟨hcyclic, hbroken, r, by rw [strict, hpass, herror]⟩)

/-- In a consistent batch without cycles a place has a value or is lost. -/
lemma denotes_or_lost (hc : Consistent tokens) (h : ¬ Cyclic (RefersTo tokens version)) :
    ∀ i < tokens.length, (∃ v, Denotes tokens version i v) ∨ Lost tokens version i := by
  obtain ⟨work, -, hstage, hperm⟩ := inOrder_of_not_cyclic .lenient h
  have hall : ∀ i ∈ work, (∃ v, Denotes tokens version i v) ∨ Lost tokens version i := by
    refine hstage.targetsFirst.forall_mem (by simp) fun i hi hnext => ?_
    -- What links lead to comes first, so the alternative is known there.
    have ht : tokens[i]? = some (tokens.get ⟨i, hstage.lt_length i hi⟩) :=
      List.getElem?_eq_getElem (hstage.lt_length i hi)
    rcases hc.cases ht with hv | hbroken | ⟨j, hj⟩
    · exact .inl hv
    · exact .inr ⟨i, _, .refl, ht, hbroken⟩
    · rcases hnext j hj with ⟨v, hv⟩ | hlost
      · exact .inl ⟨v, hj.denotes.mpr hv⟩
      · exact .inr (hj.lost hlost)
  exact fun i hi => hall i (hperm.mem_iff.mpr (List.mem_range.mpr hi))

/-- Looking at each place is looking at each token. -/
lemma filterMap_range_getElem? {β : Type} (f : Token → Option β) (tokens : List Token) :
    ((List.range tokens.length).filterMap fun i => (tokens[i]?).bind f) = tokens.filterMap f := by
  induction tokens with
  | nil => rfl
  | cons t tokens ih =>
    rw [List.length_cons, List.range_succ_eq_map, List.filterMap_cons, List.filterMap_map,
      List.filterMap_cons, ← ih]
    rfl

/-- A lenient run in an order of the graph deals with every place and reports the broken links in
that order. -/
lemma lenient_of_order {names : List String}
    (h : (Graph.ofTokens tokens version).order = .ok names) :
    ∃ tokens', lenient tokens version = (tokens', .ok ((names.flatMap (places tokens)).filterMap
        fun i => (tokens[i]?).bind (failure? tokens version))) ∧
      Complete tokens version tokens' := by
  obtain ⟨tokens', hrun, hprogress⟩ := pass_lenient (stage_of_order h)
  refine ⟨tokens', (inOrder_of_order .lenient h).trans hrun, hprogress.complete fun i hi => ?_⟩
  simpa using (places_of_order h).2.mem_iff.mpr (List.mem_range.mpr hi)

/-- A lenient run that is not refused follows an order of the graph. -/
lemma order_of_lenient {tokens' : List Token} {failures : List Failure}
    (hrun : lenient tokens version = (tokens', .ok failures)) :
    ∃ names, (Graph.ofTokens tokens version).order = .ok names := by
  cases horder : (Graph.ofTokens tokens version).order with
  | error e =>
    rw [lenient, inOrder, horder] at hrun
    cases hrun
  | ok names => exact ⟨names, rfl⟩

/-- The two outcomes of the lenient mode. -/
lemma lenient_cases (tokens : List Token) (version : Version) :
    (Cyclic (RefersTo tokens version) ∧
      ∃ cycle, lenient tokens version = (tokens, .error (.circular cycle))) ∨
    (¬ Cyclic (RefersTo tokens version) ∧
      ∃ tokens' failures, lenient tokens version = (tokens', .ok failures) ∧
        failures.Perm (tokens.filterMap (failure? tokens version)) ∧
        Complete tokens version tokens') := by
  by_cases hcyclic : Cyclic (RefersTo tokens version)
  · exact .inl ⟨hcyclic, inOrder_of_cyclic .lenient hcyclic⟩
  · have horder := Graph.order_of_not_cyclic (Graph.dependsOn_ofTokens_eq ▸ hcyclic)
    obtain ⟨tokens', hrun, hcomplete⟩ := lenient_of_order horder
    refine .inr ⟨hcyclic, tokens', _, hrun, ?_, hcomplete⟩
    rw [← filterMap_range_getElem?]
    exact (places_of_order horder).2.filterMap _

/-- What a lenient run that is not refused leaves and reports. -/
lemma complete_of_lenient {tokens' : List Token} {failures : List Failure}
    (hrun : lenient tokens version = (tokens', .ok failures)) :
    Complete tokens version tokens' ∧
      failures.Perm (tokens.filterMap (failure? tokens version)) := by
  rcases lenient_cases tokens version with ⟨-, cycle, hcycle⟩ |
    ⟨-, resolved, found, hrun', hfailures, hcomplete⟩
  · cases hrun.symm.trans hcycle
  · cases hrun.symm.trans hrun'
    exact ⟨hcomplete, hfailures⟩

/-! ## The strict mode -/

/-- A link to a pointer that counts by the version of the batch, two tokens of one name, a value
that is no string, the same pointer in a token of the draft version, references among other text,
and a token that is resolved although its link is broken. -/
def sampleBatch : List Token :=
  [{ name := "link", value := "{brand.main}" },
   { name := "brand-main", value := "#/space/large" },
   { name := "brand-main", value := "solid {space.large}" },
   { name := "space-large", value := "8", rawValue := some (.ofNat 8) },
   { name := "plain", value := "#/space/large", version := .draft },
   { name := "kept", value := "{gone}", resolvedValue := some .null, isResolved := true }]

/-- The outcome of the strict mode: a cycle of references comes first, then a broken link, and
otherwise all goes well. No other error is returned, and a batch that is refused is left as it
was. -/
theorem strict_outcome (tokens : List Token) (version : Version) (hc : Consistent tokens) :
    ((∃ cycle, (strict tokens version).2 = .error (.circular cycle)) ↔
      Cyclic (RefersTo tokens version)) ∧
    (¬ Cyclic (RefersTo tokens version) →
      ((∃ r, (strict tokens version).2 = .error (.missingReference r)) ↔
        ∃ t ∈ tokens, IsBroken tokens version t)) ∧
    (¬ Cyclic (RefersTo tokens version) → (¬ ∃ t ∈ tokens, IsBroken tokens version t) →
      (strict tokens version).2 = .ok ()) ∧
    (∀ r, (strict tokens version).2 ≠ .error (.unresolvedDependency r)) ∧
    ∀ e, (strict tokens version).2 = .error e → (strict tokens version).1 = tokens := by
  rcases strict_cases version hc with ⟨hcyclic, cycle, hcycle⟩ |
    ⟨hcyclic, hbroken, r, hr⟩ | ⟨hcyclic, hvalue, tokens', hok, -⟩
  · simp [hcycle, hcyclic]
  · simp [hr, hcyclic, hbroken]
  · -- A broken link leaves its place without a value.
    have hbroken : ¬ ∃ t ∈ tokens, IsBroken tokens version t := by
      rintro ⟨t, ht, hbroken⟩
      obtain ⟨i, hi, rfl⟩ := List.getElem_of_mem ht
      obtain ⟨v, hv⟩ := hvalue i hi
      exact hbroken.not_denotes (List.getElem?_eq_getElem hi) hv
    simp [hok, hcyclic, hbroken]

/-- A broken link, a link to its token, and a link that it does not stand behind. -/
def brokenBatch : List Token :=
  [{ name := "uses", value := "{typo}" },
   { name := "typo", value := "{nope}" },
   { name := "brand", value := "{red}" },
   { name := "red", value := "#f00" }]

theorem strict_outcome_broken :
    Consistent brokenBatch ∧ ¬ Cyclic (RefersTo brokenBatch .draft) ∧
    ((∃ r, (strict brokenBatch .draft).2 = .error (.missingReference r)) ↔
      ∃ t ∈ brokenBatch, IsBroken brokenBatch .draft t) ∧
    (strict brokenBatch .draft).2 = .error (.missingReference "nope") ∧
    (strict brokenBatch .draft).1 = brokenBatch :=
  have hc : Consistent brokenBatch := by decide
  have hcyclic : ¬ Cyclic (RefersTo brokenBatch .draft) := by decide +kernel
  have herror : (strict brokenBatch .draft).2 = .error (.missingReference "nope") := rfl
  have ⟨_, hmissing, _, _, hkept⟩ := strict_outcome brokenBatch .draft hc
  ⟨hc, hcyclic, hmissing hcyclic, herror, hkept _ herror⟩

/-! ## The lenient mode -/

/-- The outcome of the lenient mode. Without a cycle it reports each broken link once, a token ends
unresolved exactly if it was and links lead from it to a broken one, and then is as it was; all
others have the only values that the equations allow. A cycle leaves the batch as it was. -/
theorem lenient_outcome (tokens : List Token) (version : Version) (hc : Consistent tokens) :
    (¬ Cyclic (RefersTo tokens version) →
      ∃ tokens' failures, lenient tokens version = (tokens', .ok failures) ∧
        failures.Perm (tokens.filterMap (failure? tokens version)) ∧
        tokens'.length = tokens.length ∧
        (∀ i t t', tokens[i]? = some t → tokens'[i]? = some t' →
          (t'.isResolved = false ↔ t.isResolved = false ∧ Lost tokens version i) ∧
          (t'.isResolved = false → t' = t)) ∧
        ∃ val : Nat → Json.Value,
          (∀ i t, ¬ Lost tokens version i → tokens[i]? = some t →
            tokens'[i]? = some { t with resolvedValue := some (val i), isResolved := true } ∧
              EquationAt tokens version val i t) ∧
          ∀ val', (∀ i t, ¬ Lost tokens version i → tokens[i]? = some t →
              EquationAt tokens version val' i t) →
            ∀ i < tokens.length, ¬ Lost tokens version i → val' i = val i) ∧
    (Cyclic (RefersTo tokens version) →
      ∃ cycle, lenient tokens version = (tokens, .error (.circular cycle))) := by
  refine ⟨fun hcyclic => ?_, inOrder_of_cyclic .lenient⟩
  obtain ⟨work, hpass, hstage, hperm⟩ := inOrder_of_not_cyclic .lenient hcyclic
  obtain ⟨tokens', hrun, hprogress⟩ := pass_lenient hstage
  have hcomplete : Complete tokens version tokens' := by
    refine hprogress.complete fun i hi => ?_
    simpa using hperm.mem_iff.mpr (List.mem_range.mpr hi)
  refine ⟨tokens', _, by rw [lenient, hpass, hrun], ?_, hcomplete.length_eq, ?_,
    valueAt tokens', hcomplete.solution _ ?_ ?_⟩
  · rw [← filterMap_range_getElem?]
    exact hperm.filterMap _
  · intro i t t' ht ht'
    obtain ⟨u, hu, hsettled⟩ := hcomplete.settled i t ht
    cases ht'.symm.trans hu
    have hlt : i < tokens.length := (List.getElem?_eq_some_iff.mp ht).1
    rcases hsettled with ⟨v, hv, rfl⟩ | ⟨hnone, rfl⟩
    · -- A value that the equations give excludes that the place is lost.
      have hres : (t.markResolved v).isResolved ≠ false := by simp [Token.markResolved]
      exact ⟨⟨fun h => absurd h hres, fun h => absurd hv h.2.not_denotes⟩, fun h => absurd h hres⟩
    · have hlost : Lost tokens version i :=
        (denotes_or_lost hc hcyclic i hlt).resolve_left (not_exists.mpr hnone)
      exact ⟨⟨fun h => ⟨h, hlost⟩, fun h => h.1⟩, fun _ => rfl⟩
  · exact fun i j hi hij hj => hi (hij.lost hj)
  · exact fun i hi hlost => (denotes_or_lost hc hcyclic i hi).resolve_right hlost

theorem lenient_outcome_broken :
    Consistent brokenBatch ∧ ¬ Cyclic (RefersTo brokenBatch .draft) ∧
    ∃ tokens' failures, lenient brokenBatch .draft = (tokens', .ok failures) ∧
      failures.Perm (brokenBatch.filterMap (failure? brokenBatch .draft)) ∧
      tokens'.map Token.isResolved = [false, false, true, true] ∧
      ∀ i t t', brokenBatch[i]? = some t → tokens'[i]? = some t' →
        (t'.isResolved = false ↔ t.isResolved = false ∧ Lost brokenBatch .draft i) :=
  have hc : Consistent brokenBatch := by decide
  have hcyclic : ¬ Cyclic (RefersTo brokenBatch .draft) := by decide +kernel
  have ⟨tokens', failures, hrun, hperm, _, hlost, _⟩ :=
    (lenient_outcome brokenBatch .draft hc).1 hcyclic
  have hresolved : (lenient brokenBatch .draft).1.map Token.isResolved
      = [false, false, true, true] := rfl
  ⟨hc, hcyclic, tokens', failures, hrun, hperm, by rwa [hrun] at hresolved,
    fun i t t' ht ht' => (hlost i t t' ht ht').1⟩

end Resolution

end DesignTokens
