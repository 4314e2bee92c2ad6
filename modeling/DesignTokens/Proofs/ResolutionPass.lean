import DesignTokens.Proofs.Meaning
import Mathlib.Data.List.Nodup

/-!
# The pass over a batch

A pass resolves the places of a batch one after the other. When it comes to a place, the places that
links lead to have been dealt with (`places_of_order`), so that it reads final values: each place
that was dealt with has the value that the equations give, or is as it was where they give none
(`Progress`).
One step keeps that (`resolveToken_cases`), and so does the whole pass, in the lenient mode always
(`pass_lenient`) and in the strict mode up to the first broken link (`pass_strict`).
-/

namespace DesignTokens

namespace Resolution

variable {tokens : List Token} {version : Version}

/-! ## The order of places -/

/-- The places of a name are those of the tokens with it. -/
lemma mem_places {name : String} {i : Nat} :
    i ∈ places tokens name ↔ ∃ t, tokens[i]? = some t ∧ t.name = name := by
  unfold places
  simp only [List.mem_map, List.mem_filter, decide_eq_true_eq, Prod.exists, exists_eq_right,
    List.mem_zipIdx_iff_getElem?]

lemma nodup_places (tokens : List Token) (name : String) : (places tokens name).Nodup := by
  have hsub : (places tokens name).Sublist (tokens.zipIdx.map Prod.snd) :=
    List.filter_sublist.map _
  rw [List.zipIdx_map_snd] at hsub
  exact (List.nodup_range' ..).sublist hsub

/-- A change of the tokens that keeps their names keeps the places of the names. -/
lemma places_map (f : Token → Token) (hname : ∀ t, (f t).name = t.name) (tokens : List Token)
    (name : String) : places (tokens.map f) name = places tokens name := by
  unfold places
  rw [List.zipIdx_map, List.filter_map, List.map_map]
  simp only [Function.comp_def, Prod.map_fst, Prod.map_snd, hname, id_eq]

/-- A token follows a link only to a name that it refers to. -/
lemma Follows.refersTo {i j : Nat} (h : Follows tokens version i j) :
    ∃ t u, tokens[i]? = some t ∧ tokens[j]? = some u ∧ RefersTo tokens version t.name u.name := by
  obtain ⟨t, l, ht, -, hlink, hj⟩ := h
  obtain ⟨u, hu, hname⟩ := name_of_firstPlace? hj
  refine ⟨t, u, ht, hu, refersTo_iff.mpr ⟨t, List.mem_of_getElem? ht, rfl, ?_⟩⟩
  rw [hname]
  exact link_mem_dependencies hlink

/-- Names in the order of their references give places in the order of links. -/
lemma targetsFirst_places {names before : List String} {done : List Nat}
    (h : TargetsFirst (RefersTo tokens version) before names)
    (hdone : ∀ j u, tokens[j]? = some u → u.name ∈ before → j ∈ done) :
    TargetsFirst (Follows tokens version) done (names.flatMap (places tokens)) := by
  induction names generalizing before done with
  | nil => trivial
  | cons name names ih =>
    rw [List.flatMap_cons]
    refine .append ?_ (ih h.2 ?_)
    · -- The places of one name do not wait for each other.
      intro i hi j hij
      obtain ⟨t, u, ht, hu, href⟩ := hij.refersTo
      obtain ⟨t', ht', hname⟩ := mem_places.mp hi
      cases ht.symm.trans ht'
      rw [hname] at href
      exact hdone j u hu (h.1 _ href)
    · intro j u hu hmem
      rw [List.mem_append, List.mem_reverse, mem_places]
      rcases List.mem_cons.mp hmem with hname | hmem
      · exact .inl ⟨u, hu, hname⟩
      · exact .inr (hdone j u hu hmem)

/-- The places in the order of the graph: all of them, each once, targets of links first. -/
lemma places_of_order {names : List String}
    (h : (Graph.ofTokens tokens version).order = .ok names) :
    TargetsFirst (Follows tokens version) [] (names.flatMap (places tokens)) ∧
      (names.flatMap (places tokens)).Perm (List.range tokens.length) := by
  have horder := (Graph.isOrder_of_order h).2
  constructor
  · exact targetsFirst_places (Graph.targetsFirst_of_order h) (by simp)
  · rw [List.perm_ext_iff_of_nodup ?_ List.nodup_range]
    · intro i
      rw [List.mem_flatMap, List.mem_range]
      constructor
      · rintro ⟨name, -, hi⟩
        obtain ⟨t, ht, -⟩ := mem_places.mp hi
        exact (List.getElem?_eq_some_iff.mp ht).1
      · intro hi
        have ht : tokens[i]? = some tokens[i] := List.getElem?_eq_getElem hi
        refine ⟨tokens[i].name, ?_, mem_places.mpr ⟨_, ht, rfl⟩⟩
        exact (horder.mem_iff _).mpr (Graph.name_mem_nodes_ofTokens (List.getElem_mem hi))
    · -- Places of different names are different.
      rw [List.nodup_flatMap]
      refine ⟨fun name _ => nodup_places tokens name, horder.nodup.imp ?_⟩
      intro a b hab i hia hib
      obtain ⟨t, ht, rfl⟩ := mem_places.mp hia
      obtain ⟨t', ht', rfl⟩ := mem_places.mp hib
      cases ht.symm.trans ht'
      exact hab rfl

/-! ## What one step does -/

/-- What becomes of the token `t` at place `i`: it has the value that the equations give, or it is
as it was where they give none. -/
def Settled (tokens : List Token) (version : Version) (i : Nat) (t t' : Token) : Prop :=
  (∃ v, Denotes tokens version i v ∧ t' = t.markResolved v) ∨
    ((∀ v, ¬ Denotes tokens version i v) ∧ t' = t)

lemma Settled.name_eq {i : Nat} {t t' : Token} (h : Settled tokens version i t t') :
    t'.name = t.name := by
  rcases h with ⟨v, -, rfl⟩ | ⟨-, rfl⟩
  · rfl
  · rfl

/-- A token is settled in one way. -/
lemma Settled.unique {i : Nat} {t t' u : Token} (ht : Settled tokens version i t t')
    (hu : Settled tokens version i t u) : u = t' := by
  rcases ht with ⟨v, hv, rfl⟩ | ⟨hnone, rfl⟩
  · rcases hu with ⟨w, hw, rfl⟩ | ⟨hnone, -⟩
    · rw [hv.unique hw]
    · exact absurd hv (hnone v)
  · rcases hu with ⟨w, hw, -⟩ | ⟨-, rfl⟩
    · exact absurd hw (hnone w)
    · rfl

/-- The batch after the places in `done` were dealt with. -/
structure Progress (tokens : List Token) (version : Version) (done : List Nat)
    (tokens' : List Token) : Prop where
  settled : ∀ i ∈ done, ∀ t, tokens[i]? = some t →
    ∃ t', tokens'[i]? = some t' ∧ Settled tokens version i t t'
  untouched : ∀ i, i ∉ done → tokens'[i]? = tokens[i]?
  length_eq : tokens'.length = tokens.length

/-- Before the first visit nothing has changed. -/
lemma progress_nil (tokens : List Token) (version : Version) :
    Progress tokens version [] tokens :=
  ⟨by simp, fun _ _ => rfl, rfl⟩

/-- A run keeps the names. -/
lemma Progress.names_eq {done : List Nat} {tokens' : List Token}
    (h : Progress tokens version done tokens') :
    tokens'.map Token.name = tokens.map Token.name := by
  refine List.ext_getElem? fun i => ?_
  rw [List.getElem?_map, List.getElem?_map]
  by_cases hi : i ∈ done
  · cases ht : tokens[i]? with
    | none =>
      have hlen : tokens.length ≤ i := List.getElem?_eq_none_iff.mp ht
      rw [List.getElem?_eq_none_iff.mpr (h.length_eq ▸ hlen)]
    | some t =>
      obtain ⟨t', ht', hsettled⟩ := h.settled i hi t ht
      rw [ht', Option.map_some, Option.map_some, hsettled.name_eq]
  · rw [h.untouched i hi]

/-- The look-up during a pass finds what has become of the first token with a name. -/
lemma Progress.first_eq {done : List Nat} {tokens' : List Token}
    (h : Progress tokens version done tokens') (name : String) :
    first tokens' name = (firstPlace? tokens name).bind fun i => tokens'[i]? := by
  rw [Resolution.first_eq, firstPlace?_congr h.names_eq]

/-- A step that changes one place. -/
lemma Progress.set {done : List Nat} {tokens' : List Token}
    (h : Progress tokens version done tokens') {i : Nat} {t t' : Token} (hi : i ∉ done)
    (ht : tokens[i]? = some t) (hsettled : Settled tokens version i t t') :
    Progress tokens version (i :: done) (tokens'.set i t') := by
  have hlt : i < tokens'.length := h.length_eq ▸ (List.getElem?_eq_some_iff.mp ht).1
  refine ⟨?_, ?_, by rw [List.length_set, h.length_eq]⟩
  · intro k hk u hu
    rcases List.mem_cons.mp hk with rfl | hk
    · cases ht.symm.trans hu
      exact ⟨t', List.getElem?_set_self hlt, hsettled⟩
    · have hne : i ≠ k := fun hik => hi (hik ▸ hk)
      rw [List.getElem?_set_ne hne]
      exact h.settled k hk u hu
  · intro k hk
    rw [List.mem_cons, not_or] at hk
    rw [List.getElem?_set_ne (Ne.symm hk.1)]
    exact h.untouched k hk.2

/-- A step that leaves a place without a value as it is. -/
lemma Progress.skip {done : List Nat} {tokens' : List Token}
    (h : Progress tokens version done tokens') {i : Nat} (hi : i ∉ done)
    (hnone : ∀ v, ¬ Denotes tokens version i v) :
    Progress tokens version (i :: done) tokens' := by
  refine ⟨?_, fun k hk => h.untouched k fun hmem => hk (List.mem_cons_of_mem _ hmem), h.length_eq⟩
  intro k hk u hu
  rcases List.mem_cons.mp hk with rfl | hk
  · exact ⟨u, (h.untouched k hi).trans hu, .inr ⟨hnone, rfl⟩⟩
  · exact h.settled k hk u hu

/-- The failure that a token with a broken link is reported with. -/
def failure? (tokens : List Token) (version : Version) (t : Token) : Option Failure :=
  if t.isResolved then none
  else
    match link? version t with
    | none => none
    | some l =>
      if tokens.any fun u => u.name = l.name then none
      else some ⟨t, .missingReference l.written⟩

/-- A token that is a reference fails if and only if its target is missing. -/
lemma failure?_of_link {t : Token} {l : Link} (hres : t.isResolved = false)
    (hlink : link? version t = some l) :
    failure? tokens version t =
      if firstPlace? tokens l.name = none then some ⟨t, .missingReference l.written⟩ else none := by
  have hany : tokens.any (fun u => u.name = l.name) = true ↔ firstPlace? tokens l.name ≠ none := by
    rw [Ne, firstPlace?_eq_none]
    simp
  unfold failure?
  simp only [hres, hlink, Bool.false_eq_true, if_false, hany, ite_not]

/-- A token is reported exactly if its link is broken. -/
lemma failure?_eq_none {t : Token} :
    failure? tokens version t = none ↔ ¬ IsBroken tokens version t := by
  unfold failure? IsBroken
  cases hres : t.isResolved with
  | true => simp
  | false =>
    cases hlink : link? version t with
    | none => simp
    | some l => simp

lemma token_of_failure? {t : Token} {f : Failure} (h : failure? tokens version t = some f) :
    f.token = t := by
  unfold failure? at h
  split at h
  · cases h
  · split at h
    · cases h
    · split at h
      · cases h
      · cases h
        rfl

/-- Resolving a token when all that its link leads to is dealt with: it gets what the equations
give, its link is broken, or its link leads to a place for which the equations give nothing. -/
lemma resolveToken_cases {done : List Nat} {tokens' : List Token}
    (h : Progress tokens version done tokens') {i : Nat} {t : Token} (ht : tokens[i]? = some t)
    (hdone : ∀ j, Follows tokens version i j → j ∈ done) :
    (∃ t', resolveToken t (first tokens') version = .ok t' ∧ Settled tokens version i t t' ∧
      failure? tokens version t = none) ∨
    (∃ r, resolveToken t (first tokens') version = .error (.missingReference r) ∧
      IsBroken tokens version t ∧ failure? tokens version t = some ⟨t, .missingReference r⟩) ∨
    (∃ r j, resolveToken t (first tokens') version = .error (.unresolvedDependency r) ∧
      Follows tokens version i j ∧ (∀ v, ¬ Denotes tokens version j v) ∧
      failure? tokens version t = none) := by
  unfold resolveToken
  cases hres : t.isResolved with
  | true =>
    refine .inl ⟨t, rfl, ?_, by simp [failure?, hres]⟩
    cases hv : t.resolvedValue with
    | some v =>
      refine .inl ⟨v, .entry ht hres hv, ?_⟩
      rw [Token.markResolved, ← hv, ← hres]
    | none =>
      refine .inr ⟨fun v => ?_, rfl⟩
      simp [denotes_of_resolved ht hres, hv]
  | false =>
    rw [resolvedValue_eq]
    cases hlink : link? version t with
    | none =>
      exact .inl ⟨_, rfl, .inl ⟨_, .own ht hres hlink, rfl⟩, by simp [failure?, hres, hlink]⟩
    | some l =>
      simp only [Bool.false_eq_true, if_false, dereference, h.first_eq]
      have hfail : failure? tokens version t = _ := failure?_of_link hres hlink
      cases hj : firstPlace? tokens l.name with
      | none =>
        refine .inr (.inl ⟨l.written, rfl, ⟨hres, l, hlink, firstPlace?_eq_none.mp hj⟩, ?_⟩)
        rw [hfail, if_pos hj]
      | some j =>
        have hfail' : failure? tokens version t = none := by rw [hfail, hj]; rfl
        have hfollows : Follows tokens version i j := ⟨t, l, ht, hres, hlink, hj⟩
        -- The target is done: it has its final value, or it has none.
        obtain ⟨u, hu, -⟩ := name_of_firstPlace? hj
        obtain ⟨u', hu', hsettled⟩ := h.settled j (hdone j hfollows) u hu
        simp only [Option.bind_some, hu']
        rcases hsettled with ⟨v, hv, rfl⟩ | ⟨hnone, rfl⟩
        · exact .inl ⟨_, rfl, .inl ⟨v, .link ht hres hlink hj hv, rfl⟩, hfail'⟩
        · refine .inr (.inr ⟨l.written, j, ?_, hfollows, hnone, hfail'⟩)
          cases hures : u'.isResolved with
          | false => rfl
          | true =>
            cases huv : u'.resolvedValue with
            | none => rfl
            | some v => exact absurd (.entry hu hures huv) (hnone v)

lemma Follows.none_denotes {i j : Nat} (h : Follows tokens version i j)
    (hj : ∀ v, ¬ Denotes tokens version j v) : ∀ v, ¬ Denotes tokens version i v :=
  fun v hv => hj v (h.denotes.mp hv)

/-! ## The whole pass -/

lemma pass_cons_of_none (mode : Mode) (version : Version) {i : Nat} (work : List Nat)
    (ht : tokens[i]? = none) :
    pass mode version (i :: work) tokens = pass mode version work tokens := by
  simp only [pass, ht]

/-- A token that is resolved is put in its place, and the pass goes on with it there. -/
lemma pass_cons_of_ok (mode : Mode) {i : Nat} (work : List Nat) {t t' : Token}
    (ht : tokens[i]? = some t) (hok : resolveToken t (first tokens) version = .ok t') :
    pass mode version (i :: work) tokens = pass mode version work (tokens.set i t') := by
  simp only [pass, ht, hok]

/-- A strict pass ends at the first error. -/
lemma pass_strict_cons_of_error {i : Nat} (work : List Nat) {t : Token} {e : Error}
    (ht : tokens[i]? = some t) (herror : resolveToken t (first tokens) version = .error e) :
    pass .strict version (i :: work) tokens = (tokens, .error e) := by
  simp only [pass, ht, herror]

/-- A lenient pass reports an error and goes on. -/
lemma pass_lenient_cons_of_error {i : Nat} (work : List Nat) {t : Token} {e : Error}
    (ht : tokens[i]? = some t) (herror : resolveToken t (first tokens) version = .error e) :
    pass .lenient version (i :: work) tokens =
      ((pass .lenient version work tokens).1,
        (pass .lenient version work tokens).2.map fun failures =>
          (reported? t e).toList ++ failures) := by
  simp only [pass, ht, herror]

/-- A pass between two steps: some places are done, and the others come in the order of links. -/
structure Stage (tokens : List Token) (version : Version) (done work : List Nat)
    (tokens' : List Token) : Prop where
  progress : Progress tokens version done tokens'
  targetsFirst : TargetsFirst (Follows tokens version) done work
  nodup : work.Nodup
  fresh : ∀ i ∈ work, i ∉ done
  lt_length : ∀ i ∈ work, i < tokens.length

/-- The next token is as it was on entry. -/
lemma Stage.getElem? {done work : List Nat} {tokens' : List Token} {i : Nat}
    (h : Stage tokens version done (i :: work) tokens') :
    ∃ t, tokens[i]? = some t ∧ tokens'[i]? = some t := by
  have hlt : i < tokens.length := h.lt_length i (List.mem_cons_self ..)
  have ht : tokens[i]? = some tokens[i] := List.getElem?_eq_getElem hlt
  exact ⟨tokens[i], ht, (h.progress.untouched i (h.fresh i (List.mem_cons_self ..))).trans ht⟩

/-- A visit moves a place from the work to what is done. -/
lemma Stage.next {done work : List Nat} {tokens' after : List Token} {i : Nat}
    (h : Stage tokens version done (i :: work) tokens')
    (hafter : Progress tokens version (i :: done) after) :
    Stage tokens version (i :: done) work after := by
  obtain ⟨hi, hnodup⟩ := List.nodup_cons.mp h.nodup
  refine ⟨hafter, h.targetsFirst.2, hnodup, ?_,
    fun k hk => h.lt_length k (List.mem_cons_of_mem _ hk)⟩
  intro k hk hmem
  rcases List.mem_cons.mp hmem with rfl | hmem
  · exact hi hk
  · exact h.fresh k (List.mem_cons_of_mem _ hk) hmem

/-- A pass over the first of the places only. -/
lemma Stage.of_append {done front back : List Nat} {tokens' : List Token}
    (h : Stage tokens version done (front ++ back) tokens') :
    Stage tokens version done front tokens' :=
  ⟨h.progress, h.targetsFirst.of_append, h.nodup.of_append_left,
    fun i hi => h.fresh i (List.mem_append_left _ hi),
    fun i hi => h.lt_length i (List.mem_append_left _ hi)⟩

/-- A pass starts with nothing done and every place of the batch to come. -/
lemma stage_of_order {names : List String}
    (h : (Graph.ofTokens tokens version).order = .ok names) :
    Stage tokens version [] (names.flatMap (places tokens)) tokens := by
  obtain ⟨hfirst, hperm⟩ := places_of_order h
  refine ⟨progress_nil tokens version, hfirst, hperm.nodup_iff.mpr List.nodup_range, by simp, ?_⟩
  exact fun i hi => List.mem_range.mp (hperm.mem_iff.mp hi)

/-- A lenient pass deals with all its places and reports the broken links among them. -/
lemma pass_lenient {work done : List Nat} {tokens' : List Token}
    (h : Stage tokens version done work tokens') :
    ∃ tokens'', pass .lenient version work tokens' =
        (tokens'', .ok (work.filterMap fun i => (tokens[i]?).bind (failure? tokens version))) ∧
      Progress tokens version (work.reverse ++ done) tokens'' := by
  induction work generalizing done tokens' with
  | nil => exact ⟨tokens', rfl, h.progress⟩
  | cons i work ih =>
    have hidone := h.fresh i (List.mem_cons_self ..)
    obtain ⟨t, ht, ht'⟩ := h.getElem?
    rcases resolveToken_cases h.progress ht h.targetsFirst.1 with ⟨t', hok, hsettled, hfail⟩ |
      ⟨r, herror, hbroken, hfail⟩ | ⟨r, j, herror, hfollows, hnone, hfail⟩
    · obtain ⟨tokens'', hpass, hprogress⟩ := ih (h.next (h.progress.set hidone ht hsettled))
      refine ⟨tokens'', ?_, by simpa using hprogress⟩
      rw [pass_cons_of_ok .lenient work ht' hok, hpass]
      simp [ht, hfail]
    · obtain ⟨tokens'', hpass, hprogress⟩ :=
        ih (h.next (h.progress.skip hidone fun v => hbroken.not_denotes ht))
      refine ⟨tokens'', ?_, by simpa using hprogress⟩
      rw [pass_lenient_cons_of_error work ht' herror, hpass]
      simp [ht, hfail, Except.map, reported?]
    · obtain ⟨tokens'', hpass, hprogress⟩ :=
        ih (h.next (h.progress.skip hidone (hfollows.none_denotes hnone)))
      refine ⟨tokens'', ?_, by simpa using hprogress⟩
      rw [pass_lenient_cons_of_error work ht' herror, hpass]
      simp [ht, hfail, Except.map, reported?]

/-- A strict pass over a consistent batch ends at a broken link, or finds a value for each of its
places. -/
lemma pass_strict (hc : Consistent tokens) {work done : List Nat} {tokens' : List Token}
    (h : Stage tokens version done work tokens')
    (hvalue : ∀ i ∈ done, ∃ v, Denotes tokens version i v) :
    (∃ tokens'' failures, pass .strict version work tokens' = (tokens'', .ok failures) ∧
      Progress tokens version (work.reverse ++ done) tokens'' ∧
      ∀ i ∈ work, ∃ v, Denotes tokens version i v) ∨
    (∃ tokens'' r, pass .strict version work tokens' = (tokens'', .error (.missingReference r)) ∧
      ∃ t ∈ tokens, IsBroken tokens version t) := by
  induction work generalizing done tokens' with
  | nil => exact .inl ⟨tokens', [], rfl, h.progress, by simp⟩
  | cons i work ih =>
    have hidone := h.fresh i (List.mem_cons_self ..)
    obtain ⟨t, ht, ht'⟩ := h.getElem?
    rcases resolveToken_cases h.progress ht h.targetsFirst.1 with ⟨t', hok, hsettled, hfail⟩ |
      ⟨r, herror, hbroken, -⟩ | ⟨r, j, herror, hfollows, hnone, -⟩
    · have hi : ∃ v, Denotes tokens version i v := by
        rcases hc.cases ht with hv | hbroken | ⟨j, hj⟩
        · exact hv
        · exact absurd hbroken (failure?_eq_none.mp hfail)
        · obtain ⟨v, hv⟩ := hvalue j (h.targetsFirst.1 j hj)
          exact ⟨v, hj.denotes.mpr hv⟩
      have hnext := h.next (h.progress.set hidone ht hsettled)
      rw [pass_cons_of_ok .strict work ht' hok]
      rcases ih hnext (List.forall_mem_cons.mpr ⟨hi, hvalue⟩) with
        ⟨tokens'', failures, heq, hprogress, hall⟩ | herror
      · exact .inl ⟨tokens'', failures, heq, by simpa using hprogress,
          List.forall_mem_cons.mpr ⟨hi, hall⟩⟩
      · exact .inr herror
    · exact .inr ⟨tokens', r, pass_strict_cons_of_error work ht' herror, t,
        List.mem_of_getElem? ht, hbroken⟩
    · -- The target of the link is done, and all that is done has a value.
      obtain ⟨v, hv⟩ := hvalue j (h.targetsFirst.1 j hfollows)
      exact absurd hv (hnone v)

end Resolution

end DesignTokens
