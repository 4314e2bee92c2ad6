import DesignTokens.Proofs.ResolutionModes
import Mathlib.Logic.Equiv.Basic

/-!
# What the outcome of resolution does not depend on

Two runs are compared through the values that the equations of their batches give.

* A batch may be rearranged, as long as tokens that share a name keep their order (`Rearranges`):
  then first places move with the batch, and with them the values (`Rearranges.denotes_iff`). So
  each token ends as it would have ended at its old place (`resolution_rearranged`).
* A batch that was resolved may be resolved again: the equations of the result give no value that
  those of the batch did not give (`Complete.denotes`). So a second run changes nothing and reports
  the same (`resolution_idempotent`).
-/

namespace DesignTokens

namespace Resolution

variable {tokens : List Token} {version : Version}

/-- A failure depends on the names of the batch only. -/
lemma failure?_congr {tokens' : List Token}
    (h : ∀ name, (∃ u ∈ tokens', u.name = name) ↔ ∃ u ∈ tokens, u.name = name) :
    failure? tokens' version = failure? tokens version := by
  have hany : ∀ name, (tokens'.any fun u => u.name = name) = tokens.any fun u => u.name = name := by
    intro name
    rw [Bool.eq_iff_iff, List.any_eq_true, List.any_eq_true]
    simpa only [decide_eq_true_eq] using h name
  funext t
  unfold failure?
  simp only [hany]

/-- What the equations give decides how a place ends. -/
lemma Complete.getElem?_eq {tokens' tokens₂ tokens₂' : List Token}
    (h : Complete tokens version tokens') (h₂ : Complete tokens₂ version tokens₂') {i j : Nat}
    (htoken : tokens₂[j]? = tokens[i]?)
    (hdenotes : ∀ v, Denotes tokens₂ version j v ↔ Denotes tokens version i v) :
    tokens₂'[j]? = tokens'[i]? := by
  cases ht : tokens[i]? with
  | none =>
    rw [ht] at htoken
    rw [h.getElem?_of_none ht, h₂.getElem?_of_none htoken]
  | some t =>
    rw [ht] at htoken
    obtain ⟨t', ht', ⟨v, hv, rfl⟩ | ⟨hnone, rfl⟩⟩ := h.settled i t ht
    · rw [ht', h₂.getElem?_of_denotes htoken ((hdenotes v).mpr hv)]
    · obtain ⟨t₂, ht₂, ⟨v, hv, -⟩ | ⟨-, rfl⟩⟩ := h₂.settled j t' htoken
      · exact absurd ((hdenotes v).mp hv) (hnone v)
      · rw [ht', ht₂]

/-! ## Rearranging a batch -/

/-- The batch `tokens₂` has the tokens of `tokens`, each moved to the place that `σ` gives for its
place. Tokens that share a name keep their order. What `σ` does beyond the batch plays no part. -/
structure Rearranges (σ : Equiv.Perm Nat) (tokens tokens₂ : List Token) : Prop where
  getElem? : ∀ i, tokens₂[σ i]? = tokens[i]?
  lt_of_name : ∀ i j t u, tokens[i]? = some t → tokens[j]? = some u → t.name = u.name →
    i < j → σ i < σ j

namespace Rearranges

variable {σ : Equiv.Perm Nat} {tokens₂ : List Token}

lemma symm (h : Rearranges σ tokens tokens₂) : Rearranges σ.symm tokens₂ tokens := by
  have hget : ∀ i, tokens[σ.symm i]? = tokens₂[i]? := by
    intro i
    rw [← h.getElem?, Equiv.apply_symm_apply]
  refine ⟨hget, fun i j t u ht hu hname hij => ?_⟩
  rw [← hget] at ht hu
  -- The other order would have been kept.
  by_contra hle
  rcases Nat.lt_or_eq_of_le (Nat.le_of_not_lt hle) with hlt | heq
  · have hji := h.lt_of_name _ _ u t hu ht hname.symm hlt
    rw [Equiv.apply_symm_apply, Equiv.apply_symm_apply] at hji
    omega
  · have hji : j = i := σ.symm.injective heq
    omega

lemma lt_length_iff (h : Rearranges σ tokens tokens₂) (i : Nat) :
    σ i < tokens₂.length ↔ i < tokens.length := by
  rw [← not_le, ← not_le, ← List.getElem?_eq_none_iff, ← List.getElem?_eq_none_iff, h.getElem?]

/-- A rearranged batch is a permutation. -/
lemma perm (h : Rearranges σ tokens tokens₂) : tokens₂.Perm tokens := by
  -- The places of the one batch are those of the other, moved.
  have hplaces : ((List.range tokens.length).map σ).Perm (List.range tokens₂.length) := by
    have hnodup : ((List.range tokens.length).map σ).Nodup := List.nodup_range.map σ.injective
    rw [List.perm_ext_iff_of_nodup hnodup List.nodup_range]
    intro j
    rw [List.mem_map, List.mem_range]
    constructor
    · rintro ⟨i, hi, rfl⟩
      exact (h.lt_length_iff i).mpr (List.mem_range.mp hi)
    · intro hj
      refine ⟨σ.symm j, ?_, σ.apply_symm_apply j⟩
      rw [List.mem_range, ← h.lt_length_iff, σ.apply_symm_apply]
      exact hj
  have hmoved := (hplaces.filterMap fun j => (tokens₂[j]?).bind some).symm
  rw [List.filterMap_map, filterMap_range_getElem?, List.filterMap_some] at hmoved
  refine hmoved.trans (List.Perm.of_eq ?_)
  simp only [Function.comp_def, h.getElem?]
  rw [filterMap_range_getElem?, List.filterMap_some]

/-- References do not depend on the order of the batch. -/
lemma refersTo_eq (h : Rearranges σ tokens tokens₂) :
    RefersTo tokens₂ version = RefersTo tokens version := by
  funext a b
  simp only [RefersTo, h.perm.mem_iff]

/-- The first place of a name moves with the batch. -/
lemma firstPlace?_eq (h : Rearranges σ tokens tokens₂) {name : String} {i : Nat}
    (hi : firstPlace? tokens name = some i) : firstPlace? tokens₂ name = some (σ i) := by
  obtain ⟨⟨t, ht, hname⟩, hbefore⟩ := firstPlace?_eq_some.mp hi
  refine firstPlace?_eq_some.mpr ⟨⟨t, (h.getElem? i).trans ht, hname⟩, fun j hj u hu heq => ?_⟩
  -- Where the token at `j` was, it stood after the first place, and it still does.
  have hu' : tokens[σ.symm j]? = some u := (h.symm.getElem? j).trans hu
  rcases Nat.lt_trichotomy (σ.symm j) i with hlt | hsame | hgt
  · exact hbefore _ hlt u hu' heq
  · rw [← hsame, σ.apply_symm_apply] at hj
    omega
  · have hlt := h.lt_of_name _ _ t u ht hu' (hname.trans heq.symm) hgt
    rw [σ.apply_symm_apply] at hlt
    omega

/-- What a token means moves with it. -/
lemma denotes_of_denotes (h : Rearranges σ tokens tokens₂) {i : Nat} {v : Json.Value}
    (hv : Denotes tokens version i v) : Denotes tokens₂ version (σ i) v := by
  induction hv with
  | entry ht hres hv => exact .entry ((h.getElem? _).trans ht) hres hv
  | own ht hres hlink => exact .own ((h.getElem? _).trans ht) hres hlink
  | link ht hres hlink hj _ ih =>
    exact .link ((h.getElem? _).trans ht) hres hlink (h.firstPlace?_eq hj) ih

/-- A token means the same at its new place. -/
lemma denotes_iff (h : Rearranges σ tokens tokens₂) {i : Nat} {v : Json.Value} :
    Denotes tokens₂ version (σ i) v ↔ Denotes tokens version i v := by
  constructor
  · intro hv
    have hback := h.symm.denotes_of_denotes hv
    rwa [Equiv.symm_apply_apply] at hback
  · exact h.denotes_of_denotes

/-- Which tokens fail does not depend on the order of the batch. -/
lemma failure?_eq (h : Rearranges σ tokens tokens₂) :
    failure? tokens₂ version = failure? tokens version :=
  failure?_congr fun name => by simp only [h.perm.mem_iff]

/-- A lenient run goes the same way for the rearranged batch. -/
lemma lenient_cases (h : Rearranges σ tokens tokens₂) (version : Version) :
    ((∃ cycle, lenient tokens version = (tokens, .error (.circular cycle))) ∧
      ∃ cycle, lenient tokens₂ version = (tokens₂, .error (.circular cycle))) ∨
    (∃ tokens' failures tokens₂' failures₂, lenient tokens version = (tokens', .ok failures) ∧
      lenient tokens₂ version = (tokens₂', .ok failures₂) ∧
      (∀ i, tokens₂'[σ i]? = tokens'[i]?) ∧ failures₂.Perm failures) := by
  have hcases₂ := Resolution.lenient_cases tokens₂ version
  rw [h.refersTo_eq] at hcases₂
  rcases Resolution.lenient_cases tokens version with ⟨hcyclic, hcycle⟩ |
    ⟨hcyclic, tokens', failures, hrun, hfailures, hcomplete⟩
  · rcases hcases₂ with ⟨-, hcycle₂⟩ | ⟨hcyclic₂, -⟩
    · exact .inl ⟨hcycle, hcycle₂⟩
    · exact absurd hcyclic hcyclic₂
  · rcases hcases₂ with ⟨hcyclic₂, -⟩ | ⟨-, tokens₂', failures₂, hrun₂, hfailures₂, hcomplete₂⟩
    · exact absurd hcyclic₂ hcyclic
    · refine .inr ⟨tokens', failures, tokens₂', failures₂, hrun, hrun₂, fun i => ?_, ?_⟩
      · exact hcomplete.getElem?_eq hcomplete₂ (h.getElem? i) fun v => h.denotes_iff
      · rw [h.failure?_eq] at hfailures₂
        exact hfailures₂.trans ((h.perm.filterMap _).trans hfailures.symm)

/-- The strict mode succeeds for the rearranged batch if it does for the batch. -/
lemma strict_of_strict (h : Rearranges σ tokens tokens₂) {tokens' : List Token}
    (hrun : strict tokens version = (tokens', .ok ())) :
    ∃ tokens₂', strict tokens₂ version = (tokens₂', .ok ()) ∧
      ∀ i, tokens₂'[σ i]? = tokens'[i]? := by
  obtain ⟨hlenient, hall⟩ := strict_eq_ok_iff.mp hrun
  rcases h.lenient_cases version with ⟨⟨cycle, hcycle⟩, -⟩ |
    ⟨resolved, failures, tokens₂', failures₂, hlenient', hlenient₂, hget, hperm⟩
  · cases hlenient.symm.trans hcycle
  · cases hlenient.symm.trans hlenient'
    obtain rfl := List.perm_nil.mp hperm
    refine ⟨tokens₂', strict_eq_ok_iff.mpr ⟨hlenient₂, fun t ht => ?_⟩, hget⟩
    -- A token of the one result is a token of the other.
    obtain ⟨j, hj⟩ := List.mem_iff_getElem?.mp ht
    rw [← σ.apply_symm_apply j, hget] at hj
    exact hall t (List.mem_of_getElem? hj)

/-- A strict run that succeeds does so in any order of the batch. -/
lemma strict_isOk (h : Rearranges σ tokens tokens₂) (hrun : (strict tokens version).2 = .ok ()) :
    (strict tokens₂ version).2 = .ok () := by
  obtain ⟨tokens₂', hrun₂, -⟩ := h.strict_of_strict (Prod.ext rfl hrun)
  rw [hrun₂]

end Rearranges

/-- The order of a batch matters only among tokens that share a name. Whether references lead back
to a name does not depend on it, in the lenient mode each token ends the same and the same failures
are reported, and the strict mode succeeds on both batches or on none, with the same tokens. -/
theorem resolution_rearranged {σ : Equiv.Perm Nat} {tokens tokens₂ : List Token}
    (h : Rearranges σ tokens tokens₂) (version : Version) :
    ((∃ cycle, (lenient tokens version).2 = .error (.circular cycle)) ↔
      ∃ cycle, (lenient tokens₂ version).2 = .error (.circular cycle)) ∧
    (∀ tokens' failures, lenient tokens version = (tokens', .ok failures) →
      ∃ tokens₂' failures₂, lenient tokens₂ version = (tokens₂', .ok failures₂) ∧
        (∀ i, tokens₂'[σ i]? = tokens'[i]?) ∧ failures₂.Perm failures) ∧
    ((strict tokens version).2 = .ok () ↔ (strict tokens₂ version).2 = .ok ()) ∧
    ∀ tokens', strict tokens version = (tokens', .ok ()) →
      ∃ tokens₂', strict tokens₂ version = (tokens₂', .ok ()) ∧
        ∀ i, tokens₂'[σ i]? = tokens'[i]? := by
  refine ⟨?_, ?_, ⟨h.strict_isOk, h.symm.strict_isOk⟩, fun tokens' hrun => h.strict_of_strict hrun⟩
  · rcases h.lenient_cases version with ⟨⟨cycle, hcycle⟩, cycle₂, hcycle₂⟩ |
      ⟨tokens', failures, tokens₂', failures₂, hrun, hrun₂, -, -⟩
    · simp [hcycle, hcycle₂]
    · simp [hrun, hrun₂]
  · intro tokens' failures hrun
    rcases h.lenient_cases version with ⟨⟨cycle, hcycle⟩, -⟩ |
      ⟨resolved, found, tokens₂', failures₂, hrun', hrun₂, hget, hperm⟩
    · cases hrun.symm.trans hcycle
    · cases hrun.symm.trans hrun'
      exact ⟨tokens₂', failures₂, hrun₂, hget, hperm⟩

/-- A link to a name that two tokens share, and a broken link. -/
def brands : List Token :=
  [{ name := "link", value := "{brand}" },
   { name := "brand", value := "#f00" },
   { name := "brand", value := "#00f" },
   { name := "typo", value := "{nope}" }]

/-- The same with the two links in each other's place. -/
def movedBrands : List Token :=
  [{ name := "typo", value := "{nope}" },
   { name := "brand", value := "#f00" },
   { name := "brand", value := "#00f" },
   { name := "link", value := "{brand}" }]

lemma rearranges_brands : Rearranges (Equiv.swap 0 3) brands movedBrands := by
  refine ⟨fun i => ?_, fun i j t u ht hu hname hij => ?_⟩
  · match i with
    | 0 | 1 | 2 | 3 => rfl
    | k + 4 =>
      rw [Equiv.swap_apply_of_ne_of_ne (by omega) (by omega)]
      rfl
  · -- Only the places 1 and 2 share a name, and they stay.
    have hshared : ∀ j < 4, ∀ i < j,
        (brands[i]?).map Token.name = (brands[j]?).map Token.name → i = 1 ∧ j = 2 := by
      decide
    have hj : j < 4 := (List.getElem?_eq_some_iff.mp hu).1
    obtain ⟨rfl, rfl⟩ := hshared j hj i hij (by rw [ht, hu, Option.map_some, hname]; rfl)
    decide

theorem resolution_rearranged_brands :
    Rearranges (Equiv.swap 0 3) brands movedBrands ∧
    (lenient brands .draft).1.map Token.resolvedValue =
      [some (.string "#f00"), some (.string "#f00"), some (.string "#00f"), none] ∧
    ∃ tokens₂' failures₂, lenient movedBrands .draft = (tokens₂', .ok failures₂) ∧
      (∀ i : Nat, tokens₂'[Equiv.swap 0 3 i]? = (lenient brands .draft).1[i]?) ∧
      failures₂.length = 1 :=
  have ⟨_, hrun, _, _⟩ := resolution_rearranged rearranges_brands .draft
  have ⟨tokens₂', failures₂, hrun₂, hget, hperm⟩ := hrun (lenient brands .draft).1
    [⟨{ name := "typo", value := "{nope}" }, .missingReference "nope"⟩] rfl
  ⟨rearranges_brands, rfl, tokens₂', failures₂, hrun₂, hget, hperm.length_eq⟩

/-! ## Resolving again -/

/-- The token without what resolution adds. -/
def asWritten (t : Token) : Token :=
  { t with resolvedValue := none, isResolved := false }

namespace Complete

variable {tokens' : List Token}

/-- Resolving does not change what tokens refer to. -/
lemma ofTokens_eq (h : Complete tokens version tokens') :
    Graph.ofTokens tokens' version = Graph.ofTokens tokens version := by
  have hmap := h.map_eq asWritten fun _ _ => rfl
  rw [← Graph.ofTokens_map asWritten (fun _ => rfl) (fun _ => rfl) tokens', hmap,
    Graph.ofTokens_map asWritten (fun _ => rfl) (fun _ => rfl) tokens]

lemma places_eq (h : Complete tokens version tokens') : places tokens' = places tokens := by
  funext name
  have hmap := h.map_eq asWritten fun _ _ => rfl
  rw [← places_map asWritten (fun _ => rfl) tokens', hmap, places_map asWritten fun _ => rfl]

/-- The equations of the result give no value that those of the batch do not give. -/
lemma denotes (h : Complete tokens version tokens') {i : Nat} {v : Json.Value}
    (hv : Denotes tokens' version i v) : Denotes tokens version i v := by
  induction hv with
  | entry ht' hres hv =>
    obtain ⟨t, ht, ⟨w, hw, rfl⟩ | ⟨-, rfl⟩⟩ := h.exists_settled ht'
    · cases hv
      exact hw
    · exact .entry ht hres hv
  | own ht' hres hlink => exact .own (h.getElem?_of_unresolved ht' hres) hres hlink
  | link ht' hres hlink hj _ ih =>
    rw [h.firstPlace?_eq] at hj
    exact .link (h.getElem?_of_unresolved ht' hres) hres hlink hj ih

/-- Dealing with the result once more leaves it as it is. -/
lemma eq_of_again (h : Complete tokens version tokens') {tokens'' : List Token}
    (hagain : Complete tokens' version tokens'') : tokens'' = tokens' := by
  refine List.ext_getElem hagain.length_eq fun i hi hi' => ?_
  obtain ⟨t', ht', hsettled⟩ := hagain.exists_settled (List.getElem?_eq_getElem hi)
  obtain ⟨_, rfl⟩ := List.getElem?_eq_some_iff.mp ht'
  rcases hsettled with ⟨v, hv, heq⟩ | ⟨-, heq⟩
  · -- The value was there already.
    obtain ⟨t, ht, -⟩ := h.exists_settled ht'
    have hmarked := h.getElem?_of_denotes ht (h.denotes hv)
    rw [ht', Option.some.injEq] at hmarked
    rw [heq, hmarked]
    rfl
  · exact heq

/-- The same broken links are left. -/
lemma failure?_eq (h : Complete tokens version tokens') (i : Nat) :
    (tokens'[i]?).bind (failure? tokens' version)
      = (tokens[i]?).bind (failure? tokens version) := by
  have hnames : failure? tokens' version = failure? tokens version := by
    refine failure?_congr fun name => ?_
    rw [← List.mem_map, ← List.mem_map, h.map_eq Token.name fun _ _ => rfl]
  rw [hnames]
  cases ht : tokens[i]? with
  | none => rw [h.getElem?_of_none ht]
  | some t =>
    obtain ⟨t', ht', ⟨v, hv, rfl⟩ | ⟨-, rfl⟩⟩ := h.settled i t ht
    · have hnone : failure? tokens version t = none :=
        failure?_eq_none.mpr fun hbroken => hbroken.not_denotes ht hv
      rw [ht', Option.bind_some, Option.bind_some, hnone]
      rfl
    · rw [ht']

end Complete

/-- A second lenient run changes nothing and reports the same. -/
lemma lenient_again {tokens' : List Token} {failures : List Failure}
    (hrun : lenient tokens version = (tokens', .ok failures)) :
    lenient tokens' version = (tokens', .ok failures) := by
  obtain ⟨names, horder⟩ := order_of_lenient hrun
  obtain ⟨resolved, hfirst, hcomplete⟩ := lenient_of_order horder
  cases hfirst.symm.trans hrun
  -- The graph is the same, so the places come in the same order.
  rw [← hcomplete.ofTokens_eq] at horder
  obtain ⟨tokens'', hsecond, hagain⟩ := lenient_of_order horder
  rw [hsecond, hcomplete.eq_of_again hagain, hcomplete.places_eq]
  simp only [hcomplete.failure?_eq]

/-- Resolution is idempotent, whatever the batch says about its tokens on entry. -/
theorem resolution_idempotent (tokens : List Token) (version : Version) :
    (∀ tokens' failures, lenient tokens version = (tokens', .ok failures) →
      lenient tokens' version = (tokens', .ok failures)) ∧
    ∀ tokens', strict tokens version = (tokens', .ok ()) →
      strict tokens' version = (tokens', .ok ()) ∧ lenient tokens' version = (tokens', .ok []) := by
  refine ⟨fun tokens' failures hrun => lenient_again hrun, fun tokens' hrun => ?_⟩
  obtain ⟨hlenient, hall⟩ := strict_eq_ok_iff.mp hrun
  have hagain := lenient_again hlenient
  exact ⟨strict_eq_ok_iff.mpr ⟨hagain, hall⟩, hagain⟩

/-- A token that is said to be resolved without a value, a link to it, a broken link, a link to that
one, and a link that has a value. -/
def valuelessBatch : List Token :=
  [{ name := "claimed", value := "#f00", isResolved := true },
   { name := "stuck", value := "{claimed}" },
   { name := "typo", value := "{nope}" },
   { name := "behind", value := "{typo}" },
   { name := "link", value := "{size}" },
   { name := "size", value := "8", rawValue := some (.ofNat 8) }]

theorem resolution_idempotent_valueless :
    ¬ Consistent valuelessBatch ∧
    (lenient valuelessBatch .draft).1.map Token.isResolved =
      [true, false, false, false, true, true] ∧
    (∃ failures, lenient valuelessBatch .draft = ((lenient valuelessBatch .draft).1, .ok failures) ∧
      failures.length = 1 ∧
      lenient (lenient valuelessBatch .draft).1 .draft
        = ((lenient valuelessBatch .draft).1, .ok failures)) ∧
    strict (strict sampleBatch .draft).1 .draft = ((strict sampleBatch .draft).1, .ok ()) :=
  have hrun : lenient valuelessBatch .draft = ((lenient valuelessBatch .draft).1,
      .ok [⟨{ name := "typo", value := "{nope}" }, .missingReference "nope"⟩]) := rfl
  have hlenient := (resolution_idempotent valuelessBatch .draft).1 _ _ hrun
  have hstrict := (resolution_idempotent sampleBatch .draft).2 (strict sampleBatch .draft).1 rfl
  ⟨by decide, rfl, ⟨_, hrun, rfl, hlenient⟩, hstrict.1⟩

end Resolution

end DesignTokens
