import DesignTokens.Proofs.Resolution

/-!
# The two modes of resolution

The strict and the lenient mode pass over the same places in the same order. They do the same up to
the first error, where the strict mode stops and the lenient one reports the error or keeps silent
(`pass_modes`). So the strict mode succeeds exactly if the lenient one leaves no token unresolved
(`strict_eq_ok_iff`), whatever the batch says about its tokens on entry. In a consistent batch that
is the case exactly if the lenient mode has nothing to report (`strict_lenient_agree`).
-/

namespace DesignTokens

namespace Resolution

variable {tokens : List Token} {version : Version}

/-! ## One token -/

lemma isResolved_of_resolveToken {t t' : Token} {find : String → Option Token}
    (h : resolveToken t find version = .ok t') : t'.isResolved = true := by
  unfold resolveToken at h
  split at h
  · next hres =>
    cases h
    exact hres
  · split at h
    · cases h
      rfl
    · cases h

lemma isResolved_of_resolveToken_error {t : Token} {find : String → Option Token} {e : Error}
    (h : resolveToken t find version = .error e) : t.isResolved = false := by
  unfold resolveToken at h
  split at h
  · cases h
  · next hres => exact Bool.eq_false_iff.mpr hres

/-! ## Both modes over the same places -/

/-- A pass changes no other places than those it comes to. -/
lemma getElem?_pass_of_notMem (mode : Mode) (version : Version) {work : List Nat} {i : Nat}
    (hi : i ∉ work) (tokens : List Token) :
    (pass mode version work tokens).1[i]? = tokens[i]? := by
  induction work generalizing tokens with
  | nil => rfl
  | cons k work ih =>
    obtain ⟨hik, hi⟩ := not_or.mp (mt List.mem_cons.mpr hi)
    cases ht : tokens[k]? with
    | none => rw [pass_cons_of_none mode version work ht, ih hi]
    | some t =>
      cases hresult : resolveToken t (first tokens) version with
      | ok t' =>
        rw [pass_cons_of_ok mode work ht hresult, ih hi, List.getElem?_set_ne (Ne.symm hik)]
      | error e =>
        cases mode with
        | strict => rw [pass_strict_cons_of_error work ht hresult]
        | lenient => rw [pass_lenient_cons_of_error work ht hresult, ih hi]

/-- A lenient pass comes to its end. -/
lemma pass_lenient_ok (version : Version) (work : List Nat) (tokens : List Token) :
    ∃ tokens' failures, pass .lenient version work tokens = (tokens', .ok failures) := by
  induction work generalizing tokens with
  | nil => exact ⟨tokens, [], rfl⟩
  | cons i work ih =>
    cases ht : tokens[i]? with
    | none =>
      rw [pass_cons_of_none .lenient version work ht]
      exact ih tokens
    | some t =>
      cases hresult : resolveToken t (first tokens) version with
      | ok t' =>
        rw [pass_cons_of_ok .lenient work ht hresult]
        exact ih (tokens.set i t')
      | error e =>
        obtain ⟨tokens', failures, hpass⟩ := ih tokens
        rw [pass_lenient_cons_of_error work ht hresult, hpass]
        exact ⟨tokens', _, rfl⟩

/-- Over places that are all different the two modes do the same up to the first error. There the
strict mode stops, and the lenient mode reports the error if it is one to report; the token stays
unresolved. -/
lemma pass_modes (version : Version) {work : List Nat} (hwork : work.Nodup) (tokens : List Token) :
    (∃ tokens', pass .strict version work tokens = (tokens', .ok []) ∧
      pass .lenient version work tokens = (tokens', .ok []) ∧
      ∀ i ∈ work, ∀ t, tokens'[i]? = some t → t.isResolved = true) ∨
    (∃ tokens' e, pass .strict version work tokens = (tokens', .error e) ∧
      ∃ tokens'' t failures, pass .lenient version work tokens =
        (tokens'', .ok ((reported? t e).toList ++ failures)) ∧
      t ∈ tokens'' ∧ t.isResolved = false) := by
  induction work generalizing tokens with
  | nil => exact .inl ⟨tokens, rfl, rfl, by simp⟩
  | cons i work ih =>
    obtain ⟨hi, hwork⟩ := List.nodup_cons.mp hwork
    -- The place is not met again, so it ends as this step leaves it.
    have hkept := fun mode => getElem?_pass_of_notMem mode version hi
    cases ht : tokens[i]? with
    | none =>
      rw [pass_cons_of_none .strict version work ht, pass_cons_of_none .lenient version work ht]
      rcases ih hwork tokens with ⟨tokens', hstrict, hlenient, hall⟩ | herror
      · refine .inl ⟨tokens', hstrict, hlenient, List.forall_mem_cons.mpr ⟨?_, hall⟩⟩
        have hnone := hkept .strict tokens
        rw [hstrict, ht] at hnone
        simp [hnone]
      · exact .inr herror
    | some t =>
      have hlt : i < tokens.length := (List.getElem?_eq_some_iff.mp ht).1
      cases hresult : resolveToken t (first tokens) version with
      | ok t' =>
        rw [pass_cons_of_ok .strict work ht hresult, pass_cons_of_ok .lenient work ht hresult]
        rcases ih hwork (tokens.set i t') with ⟨tokens', hstrict, hlenient, hall⟩ | herror
        · refine .inl ⟨tokens', hstrict, hlenient, List.forall_mem_cons.mpr ⟨?_, hall⟩⟩
          have hset := hkept .strict (tokens.set i t')
          rw [hstrict, List.getElem?_set_self hlt] at hset
          intro u hu
          cases hset.symm.trans hu
          exact isResolved_of_resolveToken hresult
        · exact .inr herror
      | error e =>
        obtain ⟨tokens', failures, hrest⟩ := pass_lenient_ok version work tokens
        refine .inr ⟨tokens, e, pass_strict_cons_of_error work ht hresult, tokens', t, failures,
          ?_, ?_, isResolved_of_resolveToken_error hresult⟩
        · rw [pass_lenient_cons_of_error work ht hresult, hrest]
          rfl
        · have hsame := hkept .lenient tokens
          rw [hrest, ht] at hsame
          exact List.mem_of_getElem? hsame

/-- The outcomes of the two modes over one batch: the same cycle, the same batch with every token
resolved, or an error of the strict mode at a token that the lenient mode leaves unresolved. -/
lemma modes_cases (tokens : List Token) (version : Version) :
    (∃ cycle, strict tokens version = (tokens, .error (.circular cycle)) ∧
      lenient tokens version = (tokens, .error (.circular cycle))) ∨
    (∃ tokens', strict tokens version = (tokens', .ok ()) ∧
      lenient tokens version = (tokens', .ok []) ∧ ∀ t ∈ tokens', t.isResolved = true) ∨
    (∃ e, strict tokens version = (tokens, .error e) ∧
      ∃ tokens' t failures, lenient tokens version =
        (tokens', .ok ((reported? t e).toList ++ failures)) ∧
      t ∈ tokens' ∧ t.isResolved = false) := by
  by_cases hcyclic : Cyclic (RefersTo tokens version)
  · rw [← Graph.dependsOn_ofTokens_eq] at hcyclic
    obtain ⟨cycle, horder, -⟩ := Graph.order_of_cyclic hcyclic
    have hrun : ∀ mode, inOrder mode tokens version = (tokens, .error (.circular cycle)) :=
      fun mode => by rw [inOrder, horder]
    exact .inl ⟨cycle, by rw [strict, hrun], hrun .lenient⟩
  · rw [← Graph.dependsOn_ofTokens_eq] at hcyclic
    have horder := Graph.order_of_not_cyclic hcyclic
    have hstage := stage_of_order horder
    obtain ⟨-, hperm⟩ := places_of_order horder
    -- Both modes pass over the same places.
    rw [strict, lenient, inOrder_of_order .strict horder, inOrder_of_order .lenient horder]
    rcases pass_modes version hstage.nodup tokens with ⟨tokens', hstrict, hlenient, hall⟩ |
      ⟨tokens', e, hstrict, tokens'', t, failures, hlenient, ht, hres⟩
    · refine .inr (.inl ⟨tokens', by rw [hstrict], hlenient, fun t ht => ?_⟩)
      -- The pass has come to every place of the batch.
      obtain ⟨tokens'', hpass, hprogress⟩ := pass_lenient hstage
      obtain rfl : tokens'' = tokens' := congrArg Prod.fst (hpass.symm.trans hlenient)
      obtain ⟨i, hi⟩ := List.mem_iff_getElem?.mp ht
      have hlt : i < tokens.length := hprogress.length_eq ▸ (List.getElem?_eq_some_iff.mp hi).1
      exact hall i (hperm.mem_iff.mpr (List.mem_range.mpr hlt)) t hi
    · exact .inr (.inr ⟨e, by rw [hstrict], tokens'', t, failures, hlenient, ht, hres⟩)

/-- The strict mode succeeds exactly if the lenient mode reports nothing and leaves no token
unresolved, and then both come to the same batch. -/
lemma strict_eq_ok_iff {tokens' : List Token} :
    strict tokens version = (tokens', .ok ()) ↔
      lenient tokens version = (tokens', .ok []) ∧ ∀ t ∈ tokens', t.isResolved = true := by
  rcases modes_cases tokens version with ⟨cycle, hstrict, hlenient⟩ |
    ⟨resolved, hstrict, hlenient, hall⟩ | ⟨e, hstrict, left, t, failures, hlenient, ht, hres⟩
  · simp [hstrict, hlenient]
  · rw [hstrict, hlenient]
    constructor
    · intro h
      cases h
      exact ⟨rfl, hall⟩
    · rintro ⟨h, -⟩
      cases h
      rfl
  · rw [hstrict, hlenient]
    constructor
    · intro h
      cases h
    · rintro ⟨h, hall⟩
      obtain rfl : left = tokens' := congrArg Prod.fst h
      rw [hall t ht] at hres
      cases hres

/-! ## Consistent batches -/

/-- In a consistent batch the first error of the strict mode is one that the lenient mode
reports. -/
lemma missingReference_of_strict_error (hc : Consistent tokens) {e : Error}
    (hstrict : strict tokens version = (tokens, .error e)) {tokens' : List Token}
    {failures : List Failure} (hlenient : lenient tokens version = (tokens', .ok failures)) :
    ∃ r, e = .missingReference r := by
  rcases strict_cases version hc with ⟨hcyclic, -⟩ | ⟨-, -, r, hr⟩ | ⟨-, -, resolved, hok, -⟩
  · obtain ⟨cycle, hcycle⟩ := inOrder_of_cyclic .lenient hcyclic
    rw [lenient, hcycle] at hlenient
    cases hlenient
  · cases hstrict.symm.trans hr
    exact ⟨r, rfl⟩
  · cases hstrict.symm.trans hok

/-- The two modes agree on a consistent batch. The strict mode succeeds exactly if the lenient mode
has nothing to report, with the same tokens; both name the same cycle; and the broken link at which
the strict mode stops is the first that the lenient mode reports. -/
theorem strict_lenient_agree (tokens : List Token) (version : Version) (hc : Consistent tokens) :
    (∀ tokens', strict tokens version = (tokens', .ok ()) ↔
      lenient tokens version = (tokens', .ok [])) ∧
    (∀ cycle, (strict tokens version).2 = .error (.circular cycle) ↔
      (lenient tokens version).2 = .error (.circular cycle)) ∧
    ∀ r, (strict tokens version).2 = .error (.missingReference r) →
      ∃ failure rest, (lenient tokens version).2 = .ok (failure :: rest) ∧
        failure.error = .missingReference r := by
  rcases modes_cases tokens version with ⟨cycle, hstrict, hlenient⟩ |
    ⟨resolved, hstrict, hlenient, -⟩ | ⟨e, hstrict, left, t, failures, hlenient, -⟩
  · simp [hstrict, hlenient]
  · simp [hstrict, hlenient]
  · obtain ⟨r, rfl⟩ := missingReference_of_strict_error hc hstrict hlenient
    simp [hstrict, hlenient, reported?]

/-- Two broken links, of which the second comes first in the order of the graph, and a link to the
token of the second. -/
def twiceBroken : List Token :=
  [{ name := "uses", value := "{second}" },
   { name := "first", value := "{gone}" },
   { name := "second", value := "{lost}" },
   { name := "red", value := "#f00" }]

theorem strict_lenient_agree_twice :
    Consistent twiceBroken ∧
    (strict twiceBroken .draft).2 = .error (.missingReference "lost") ∧
    ((lenient twiceBroken .draft).2.toOption.map List.length) = some 2 ∧
    ∃ failure rest, (lenient twiceBroken .draft).2 = .ok (failure :: rest) ∧
      failure.error = .missingReference "lost" :=
  have hc : Consistent twiceBroken := by decide
  have herror : (strict twiceBroken .draft).2 = .error (.missingReference "lost") := rfl
  have ⟨_, _, hmissing⟩ := strict_lenient_agree twiceBroken .draft hc
  ⟨hc, herror, rfl, hmissing "lost" herror⟩

end Resolution

end DesignTokens
