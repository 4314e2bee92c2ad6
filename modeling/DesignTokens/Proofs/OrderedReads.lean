import DesignTokens.Proofs.ResolutionPass

/-!
# What resolution reads of a batch

The value of a token is read through a look-up by name. Nothing is looked up, or one name is, and
that is one of the names which the token refers to (`resolvedValue_cases`). So two look-ups that
agree on those names give the same value or the same error (`resolvedValue_congr`).

The graph of a batch has the names that a token refers to in front of the token's own
(`mem_front_of_dependency`). To say that over a whole run, `inOrderBy` resolves a batch as `inOrder`
does, but takes its look-up as a parameter. As long as the names that were dealt with are looked up
in the batch, the run does not depend on what is found under any other name (`inOrderBy_eq`).
-/

namespace DesignTokens

namespace Resolution

variable {tokens : List Token} {version : Version}

/-! ## One token -/

/-- A token's value is its own whatever can be looked up, or it is looked up under one of the names
that the token refers to. -/
lemma resolvedValue_cases (t : Token) (version : Version) :
    (∃ v, ∀ find, resolvedValue t find version = .ok v) ∨
    ∃ name ∈ t.dependencies version, ∃ written,
      ∀ find, resolvedValue t find version = dereference find name written := by
  -- A version that is given outright counts as the token's own would.
  have hversion : ({ t with version := version } : Token).effectiveVersion version = version :=
    ite_self version
  have hvalue := fun find => resolvedValue_eq { t with version := version } find version
  rw [hversion] at hvalue
  cases hlink : link? version { t with version := version } with
  | none =>
    simp only [hlink] at hvalue
    exact .inl ⟨t.ownValue, hvalue⟩
  | some l =>
    have hmem := link_mem_dependencies hlink
    rw [hversion] at hmem
    simp only [hlink] at hvalue
    exact .inr ⟨l.name, hmem, l.written, hvalue⟩

lemma dereference_congr {find find' : String → Option Token} {name : String} (written : String)
    (h : find name = find' name) :
    dereference find name written = dereference find' name written := by
  unfold dereference
  rw [h]

/-- Look-ups that agree on the names that a token refers to give it the same value or error. -/
lemma resolvedValue_congr {t : Token} {find find' : String → Option Token}
    (h : ∀ n ∈ t.dependencies version, find n = find' n) :
    resolvedValue t find version = resolvedValue t find' version := by
  rcases resolvedValue_cases t version with ⟨v, hvalue⟩ | ⟨name, hname, written, hvalue⟩
  · rw [hvalue, hvalue]
  · rw [hvalue, hvalue]
    exact dereference_congr written (h name hname)

/-- Only the tokens that a token depends on are read. -/
lemma resolveToken_congr {t : Token} {find find' : String → Option Token}
    (h : ∀ n ∈ t.dependencies (t.effectiveVersion version), find n = find' n) :
    resolveToken t find version = resolveToken t find' version := by
  unfold resolveToken
  rw [resolvedValue_congr h]

/-- What is found under a name counts for a token: look-ups that differ there only can give it
different values or errors. -/
def Reads (t : Token) (version : Version) (n : String) : Prop :=
  ∃ find find' : String → Option Token, (∀ m, m ≠ n → find m = find' m) ∧
    resolvedValue t find version ≠ resolvedValue t find' version

/-- The one name that counts for a token is the one that its link leads to. -/
lemma reads_iff {t : Token} {n : String} :
    Reads t (t.effectiveVersion version) n ↔ ∃ l, link? version t = some l ∧ l.name = n := by
  unfold Reads
  simp only [resolvedValue_eq]
  cases hlink : link? version t with
  | none => simp
  | some l =>
    simp only [Option.some.injEq, exists_eq_left']
    constructor
    · rintro ⟨find, find', hagree, hne⟩
      by_contra hname
      exact hne (dereference_congr l.written (hagree l.name hname))
    · rintro rfl
      -- The link is broken without its target, and has a value once that is resolved.
      let target : Token := Token.markResolved { name := l.name } .null
      refine ⟨fun _ => none, fun m => if m = l.name then some target else none, ?_, ?_⟩
      · intro m hm
        exact (if_neg hm).symm
      · simp [dereference, target, Token.markResolved]

/-! ## The order of the graph -/

/-- The names that a token refers to are placed before its own. -/
lemma mem_front_of_dependency {front back : List String} {t : Token} (ht : t ∈ tokens)
    (horder : (Graph.ofTokens tokens version).order = .ok (front ++ t.name :: back)) :
    ∀ n ∈ t.dependencies (t.effectiveVersion version), n ∈ front := by
  intro n hn
  have hrefers : RefersTo tokens version t.name n := refersTo_iff.mpr ⟨t, ht, rfl, hn⟩
  exact ((Graph.targetsFirst_of_order horder).mem_front hrefers).resolve_left List.not_mem_nil

/-! ## A whole run -/

/-- A place that a pass comes to, with the names that it has dealt with by then. -/
structure Visit where
  place : Nat
  before : List String

/-- The places of some names, name by name, when others were dealt with before. -/
def visits (tokens : List Token) : (before : List String) → List String → List Visit
  | _, [] => []
  | before, name :: names =>
    (places tokens name).map (fun i => ⟨i, before⟩) ++ visits tokens (name :: before) names

/-- A look-up for a pass. It is told the names that were dealt with and the batch as it stands. -/
abbrev Look :=
  List String → List Token → String → Option Token

/-- The pass over a batch where a token finds its targets by `look`. -/
def passBy (look : Look) (mode : Mode) (version : Version) :
    List Visit → List Token → List Token × Except Error (List Failure)
  | [], tokens => (tokens, .ok [])
  | visit :: rest, tokens =>
    match tokens[visit.place]? with
    | none => passBy look mode version rest tokens
    | some t =>
      match resolveToken t (look visit.before tokens) version with
      | .ok t' => passBy look mode version rest (tokens.set visit.place t')
      | .error e =>
        match mode with
        | .strict => (tokens, .error e)
        | .lenient =>
          let (tokens', result) := passBy look .lenient version rest tokens
          (tokens', result.map fun failures => (reported? t e).toList ++ failures)

/-- Resolves a batch in the order of its graph, with `look` to find targets. -/
def inOrderBy (look : Look) (mode : Mode) (tokens : List Token) (version : Version) :
    List Token × Except Error (List Failure) :=
  match (Graph.ofTokens tokens version).order with
  | .error e => (tokens, .error e)
  | .ok names => passBy look mode version (visits tokens [] names) tokens

/-- The names that were dealt with are looked up in the batch. What is found under any other name is
left open. -/
def SeesDone (look : Look) : Prop :=
  ∀ before tokens, ∀ n ∈ before, look before tokens n = first tokens n

/-- When the pass comes to a place, all that its token refers to was dealt with. -/
def Ready (version : Version) (work : List Visit) (tokens : List Token) : Prop :=
  ∀ visit ∈ work, ∀ t, tokens[visit.place]? = some t →
    ∀ n ∈ t.dependencies (t.effectiveVersion version), n ∈ visit.before

/-- The names are visited at all their places. -/
lemma map_place_visits (tokens : List Token) (before names : List String) :
    (visits tokens before names).map Visit.place = names.flatMap (places tokens) := by
  induction names generalizing before with
  | nil => rfl
  | cons name names ih =>
    rw [visits, List.map_append, List.map_map, ih, List.flatMap_cons]
    congr 1
    exact List.map_id _

/-- In an order with targets first, every visit finds its targets done. -/
lemma ready_visits {before names : List String}
    (h : TargetsFirst (RefersTo tokens version) before names) :
    Ready version (visits tokens before names) tokens := by
  induction names generalizing before with
  | nil => simp [Ready, visits]
  | cons name names ih =>
    intro visit hvisit t ht n hn
    rcases List.mem_append.mp hvisit with hvisit | hvisit
    · obtain ⟨i, hi, rfl⟩ := List.mem_map.mp hvisit
      obtain ⟨t', ht', hname⟩ := mem_places.mp hi
      cases ht.symm.trans ht'
      exact h.1 n (refersTo_iff.mpr ⟨t, List.mem_of_getElem? ht, hname, hn⟩)
    · exact ih h.2 visit hvisit t ht n hn

/-- Resolving a token changes none of its references. -/
lemma dependencies_of_resolveToken {t t' : Token} {find : String → Option Token}
    (h : resolveToken t find version = .ok t') :
    t'.dependencies (t'.effectiveVersion version) =
      t.dependencies (t.effectiveVersion version) := by
  unfold resolveToken at h
  split at h
  · cases h
    rfl
  · split at h
    · cases h
      rfl
    · cases h

/-- A step of the pass keeps the places to come ready. -/
lemma Ready.set {work : List Visit} (h : Ready version work tokens) {i : Nat} {t t' : Token}
    {find : String → Option Token} (ht : tokens[i]? = some t)
    (hok : resolveToken t find version = .ok t') : Ready version work (tokens.set i t') := by
  intro visit hvisit u hu
  by_cases hi : i = visit.place
  · subst hi
    rw [List.getElem?_set_self (List.getElem?_eq_some_iff.mp ht).1] at hu
    cases hu
    rw [dependencies_of_resolveToken hok]
    exact h visit hvisit t ht
  · rw [List.getElem?_set_ne hi] at hu
    exact h visit hvisit u hu

/-- Over places that are ready the two passes do the same, step by step. -/
lemma passBy_eq {look : Look} (hlook : SeesDone look) (mode : Mode) {work : List Visit}
    (h : Ready version work tokens) :
    passBy look mode version work tokens = pass mode version (work.map Visit.place) tokens := by
  induction work generalizing tokens with
  | nil => rfl
  | cons visit work ih =>
    have hvisit := h visit (List.mem_cons_self ..)
    have hwork : Ready version work tokens := fun v hv => h v (List.mem_cons_of_mem _ hv)
    rw [List.map_cons]
    cases ht : tokens[visit.place]? with
    | none =>
      rw [pass_cons_of_none mode version _ ht, ← ih hwork]
      simp only [passBy, ht]
    | some t =>
      have hsame : resolveToken t (look visit.before tokens) version =
          resolveToken t (first tokens) version :=
        resolveToken_congr fun n hn => hlook visit.before tokens n (hvisit t ht n hn)
      cases hresult : resolveToken t (first tokens) version with
      | ok t' =>
        rw [pass_cons_of_ok mode _ ht hresult, ← ih (hwork.set ht hresult)]
        simp only [passBy, ht, hsame, hresult]
      | error e =>
        cases mode with
        | strict =>
          rw [pass_strict_cons_of_error _ ht hresult]
          simp only [passBy, ht, hsame, hresult]
        | lenient =>
          rw [pass_lenient_cons_of_error _ ht hresult, ← ih hwork]
          simp only [passBy, ht, hsame, hresult]

/-- A run is the same whatever is found under names that it has not dealt with. -/
lemma inOrderBy_eq {look : Look} (hlook : SeesDone look) (mode : Mode) (tokens : List Token)
    (version : Version) :
    inOrderBy look mode tokens version = inOrder mode tokens version := by
  unfold inOrderBy inOrder
  cases horder : (Graph.ofTokens tokens version).order with
  | error e => rfl
  | ok names =>
    have hready := ready_visits (Graph.targetsFirst_of_order horder)
    have hpass := passBy_eq hlook mode hready
    rw [map_place_visits] at hpass
    exact hpass

/-- Resolution reads only what the graph orders. Look-ups that agree on the names that a token
refers to give it the same value or error, under every version; the name that does count is that of
the token's link. So in a batch that has an order the look-ups need to agree only on the names
before the token's own, and a whole run, in both modes, is the same whatever is found under the
names that it has not come to. -/
theorem reads_only_placed_before :
    (∀ (t : Token) (version : Version) (find find' : String → Option Token),
      (∀ n ∈ t.dependencies version, find n = find' n) →
      resolvedValue t find version = resolvedValue t find' version) ∧
    (∀ (t : Token) (version : Version) (n : String),
      Reads t (t.effectiveVersion version) n ↔ ∃ l, link? version t = some l ∧ l.name = n) ∧
    (∀ (tokens : List Token) (version : Version) (front back : List String) (t : Token),
      t ∈ tokens → (Graph.ofTokens tokens version).order = .ok (front ++ t.name :: back) →
      ∀ find find' : String → Option Token, (∀ n ∈ front, find n = find' n) →
      resolvedValue t find (t.effectiveVersion version) =
        resolvedValue t find' (t.effectiveVersion version)) ∧
    ∀ look, SeesDone look → ∀ (mode : Mode) (tokens : List Token) (version : Version),
      inOrderBy look mode tokens version = inOrder mode tokens version := by
  refine ⟨?_, ?_, ?_, ?_⟩
  · intro t version find find' hagree
    exact resolvedValue_congr hagree
  · intro t version n
    exact reads_iff
  · intro tokens version front back t ht horder find find' hagree
    exact resolvedValue_congr fun n hn => hagree n (mem_front_of_dependency ht horder n hn)
  · intro look hlook mode tokens version
    exact inOrderBy_eq hlook mode tokens version

/-- A link by a pointer. -/
def paletteLink : Token :=
  { name := "brand-main", value := "#/palette/red", version := .v2025_10 }

/-- A link in braces to a link by a pointer, each in front of its target. -/
def forwardLinks : List Token :=
  [{ name := "button", value := "{brand.main}" },
   paletteLink,
   { name := "palette-red", value := "#f00" }]

/-- Finds resolved tokens under all names but those that were dealt with. -/
def decoys (before : List String) (tokens : List Token) (n : String) : Option Token :=
  if n ∈ before then first tokens n else some (Token.markResolved { name := n } (.string "decoy"))

lemma seesDone_decoys : SeesDone decoys :=
  fun _ _ _ hn => if_pos hn

theorem reads_only_placed_before_forward :
    paletteLink.dependencies .v2025_10 = ["palette-red"] ∧
    (∀ n ∈ paletteLink.dependencies .v2025_10,
      decoys ["palette-red"] forwardLinks n = first forwardLinks n) ∧
    resolvedValue paletteLink (decoys ["palette-red"] forwardLinks) .v2025_10 =
      resolvedValue paletteLink (first forwardLinks) .v2025_10 ∧
    resolvedValue paletteLink (first forwardLinks) .v2025_10 =
      .error (.unresolvedDependency "#/palette/red") ∧
    Reads paletteLink .v2025_10 "palette-red" ∧
    (Graph.ofTokens forwardLinks .draft).order = .ok ["palette-red", "brand-main", "button"] ∧
    resolvedValue paletteLink (decoys ["palette-red"] []) .v2025_10 =
      resolvedValue paletteLink (first []) .v2025_10 ∧
    resolvedValue paletteLink (first []) .v2025_10 =
      .error (.missingReference "#/palette/red") ∧
    SeesDone decoys ∧
    inOrderBy decoys .strict forwardLinks .draft = inOrder .strict forwardLinks .draft ∧
    (inOrder .strict forwardLinks .draft).1.map Token.resolvedValue =
      [some (.string "#f00"), some (.string "#f00"), some (.string "#f00")] := by
  obtain ⟨hvalue, hreads, hplaced, hrun⟩ := reads_only_placed_before
  have hnames : paletteLink.dependencies .v2025_10 = ["palette-red"] := rfl
  have hagree : ∀ tokens, ∀ n ∈ paletteLink.dependencies .v2025_10,
      decoys ["palette-red"] tokens n = first tokens n :=
    fun tokens n hn => seesDone_decoys ["palette-red"] tokens n (hnames ▸ hn)
  have horder : (Graph.ofTokens forwardLinks .draft).order =
      .ok (["palette-red"] ++ paletteLink.name :: ["button"]) := rfl
  have hmem : paletteLink ∈ forwardLinks := .tail _ (.head _)
  exact ⟨hnames, hagree forwardLinks, hvalue paletteLink .v2025_10 _ _ (hagree forwardLinks), rfl,
    (hreads paletteLink .draft "palette-red").mpr ⟨_, rfl, rfl⟩, horder,
    hplaced forwardLinks .draft _ _ paletteLink hmem horder _ _ (hagree []), rfl, seesDone_decoys,
    hrun decoys seesDone_decoys .strict forwardLinks .draft, rfl⟩

end Resolution

end DesignTokens
