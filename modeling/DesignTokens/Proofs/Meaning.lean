import DesignTokens.Proofs.ReferenceGraph

/-!
# What the references of a batch mean

A batch of tokens is a system of equations: the value of a token is its own, or is the value of the
first token with the name that its link gives (`EquationAt`). `Denotes` is the value that a finite
unfolding of the equations gives for a place of the batch. Any solution agrees with it
(`Denotes.eq_of_equations`), and it solves the equations where it is defined
(`Denotes.equationAt`). It is undefined at the places that are `Lost`: those from which links lead
to a token whose link names no token.
-/

namespace DesignTokens

namespace Resolution

open Relation

/-! ## Places of names -/

/-- The place of the first token with a name. -/
def firstPlace? (tokens : List Token) (name : String) : Option Nat :=
  tokens.findIdx? fun t => t.name = name

/-- A name has a first place unless no token has it. -/
lemma firstPlace?_eq_none {tokens : List Token} {name : String} :
    firstPlace? tokens name = none ↔ ∀ t ∈ tokens, t.name ≠ name := by
  simp [firstPlace?, List.findIdx?_eq_none_iff]

lemma name_of_firstPlace? {tokens : List Token} {name : String} {i : Nat}
    (h : firstPlace? tokens name = some i) : ∃ t, tokens[i]? = some t ∧ t.name = name := by
  have hfound := List.of_findIdx?_eq_some h
  split at hfound
  · next t ht => exact ⟨t, ht, of_decide_eq_true hfound⟩
  · cases hfound

/-- The first place of a name has a token of this name, and no place before it has. -/
lemma firstPlace?_eq_some {tokens : List Token} {name : String} {i : Nat} :
    firstPlace? tokens name = some i ↔ (∃ t, tokens[i]? = some t ∧ t.name = name) ∧
      ∀ j < i, ∀ u, tokens[j]? = some u → u.name ≠ name := by
  rw [firstPlace?, List.findIdx?_eq_some_iff_getElem]
  constructor
  · rintro ⟨hlt, hname, hbefore⟩
    refine ⟨⟨_, List.getElem?_eq_getElem hlt, of_decide_eq_true hname⟩, fun j hj u hu heq => ?_⟩
    obtain ⟨_, rfl⟩ := List.getElem?_eq_some_iff.mp hu
    exact hbefore j hj (decide_eq_true heq)
  · rintro ⟨⟨t, ht, hname⟩, hbefore⟩
    obtain ⟨hlt, rfl⟩ := List.getElem?_eq_some_iff.mp ht
    refine ⟨hlt, decide_eq_true hname, fun j hj heq => ?_⟩
    exact hbefore j hj _ (List.getElem?_eq_getElem (hj.trans hlt)) (of_decide_eq_true heq)

/-- The first token with a name stands at the first place of the name. -/
lemma first_eq (tokens : List Token) (name : String) :
    first tokens name = (firstPlace? tokens name).bind fun i => tokens[i]? :=
  List.find?_eq_bind_findIdx?_getElem?

/-- The first places depend on the names only. -/
lemma firstPlace?_congr {tokens tokens' : List Token}
    (h : tokens'.map Token.name = tokens.map Token.name) (name : String) :
    firstPlace? tokens' name = firstPlace? tokens name := by
  have hmap : ∀ l : List Token,
      firstPlace? l name = (l.map Token.name).findIdx? fun n => n = name := by
    intro l
    rw [List.findIdx?_map]
    rfl
  rw [hmap, hmap, h]

/-! ## The equations -/

/-- The equations for the value of the token `t` at place `i`. -/
structure EquationAt (tokens : List Token) (version : Version) (val : Nat → Json.Value) (i : Nat)
    (t : Token) : Prop where
  /-- A token that is resolved on entry keeps its value. -/
  entry : t.isResolved = true → t.resolvedValue = some (val i)
  /-- A value that is no string stands for itself. -/
  raw : t.isResolved = false → ∀ v, t.rawValue = some v → val i = v
  /-- A reference in braces that is the whole text has the value of the first token of that name. -/
  whole : t.isResolved = false → t.rawValue = none →
    ∀ path, Reference.wholePath? t.value = some path →
      ∃ j, firstPlace? tokens (Reference.dottedToName path) = some j ∧ val i = val j
  /-- References in braces among other text stay as they are. -/
  embedded : t.isResolved = false → t.rawValue = none →
    Reference.wholePath? t.value = none → Reference.curlyPaths t.value ≠ [] →
      val i = .string t.value
  /-- A pointer has the value of the first token of that name. -/
  pointer : t.isResolved = false → t.rawValue = none → Reference.curlyPaths t.value = [] →
    t.effectiveVersion version ≠ .draft → ∀ path, t.value = "#/" ++ path →
      ∃ j, firstPlace? tokens (Reference.slashedToName path) = some j ∧ val i = val j
  /-- Any other text stands for itself. -/
  text : t.isResolved = false → t.rawValue = none → Reference.curlyPaths t.value = [] →
    (t.effectiveVersion version = .draft ∨ ∀ path, t.value ≠ "#/" ++ path) →
      val i = .string t.value

/-- A text without a link stands for itself, and it is no reference of the kinds that are
followed. -/
lemma of_link?_eq_none {t : Token} {version : Version} (h : link? version t = none)
    (hraw : t.rawValue = none) :
    Reference.wholePath? t.value = none ∧ (Reference.curlyPaths t.value = [] →
      t.effectiveVersion version = .draft ∨ ∀ path, t.value ≠ "#/" ++ path) := by
  have hnone : ∀ l, ¬ (link? version t = some l) := fun l hl => by
    rw [h] at hl
    cases hl
  constructor
  · cases hwhole : Reference.wholePath? t.value with
    | none => rfl
    | some path => exact absurd (link?_eq_some.mpr ⟨hraw, .inl ⟨path, hwhole, rfl⟩⟩) (hnone _)
  · intro hcurly
    by_cases hdraft : t.effectiveVersion version = .draft
    · exact .inl hdraft
    · exact .inr fun path hpath =>
        hnone _ (link?_eq_some.mpr ⟨hraw, .inr ⟨hcurly, hdraft, path, hpath, rfl⟩⟩)

/-- The equations for a token, by whether it has a link. -/
lemma equationAt_iff {tokens : List Token} {version : Version} {val : Nat → Json.Value} {i : Nat}
    {t : Token} :
    EquationAt tokens version val i t ↔
      (t.isResolved = true → t.resolvedValue = some (val i)) ∧
      (t.isResolved = false → link? version t = none → val i = t.ownValue) ∧
      (t.isResolved = false → ∀ l, link? version t = some l →
        ∃ j, firstPlace? tokens l.name = some j ∧ val i = val j) := by
  constructor
  · intro h
    refine ⟨h.entry, fun hres hlink => ?_, fun hres l hl => ?_⟩
    · cases hraw : t.rawValue with
      | some v =>
        rw [h.raw hres v hraw, Token.ownValue, hraw]
        rfl
      | none =>
        have hown : t.ownValue = .string t.value := by simp [Token.ownValue, hraw]
        obtain ⟨hwhole, htext⟩ := of_link?_eq_none hlink hraw
        rw [hown]
        by_cases hcurly : Reference.curlyPaths t.value = []
        · exact h.text hres hraw hcurly (htext hcurly)
        · exact h.embedded hres hraw hwhole hcurly
    · obtain ⟨hraw, ⟨path, hwhole, rfl⟩ | ⟨hcurly, hdraft, path, hpath, rfl⟩⟩ :=
        link?_eq_some.mp hl
      · exact h.whole hres hraw path hwhole
      · exact h.pointer hres hraw hcurly hdraft path hpath
  · rintro ⟨hentry, hown, hlink⟩
    -- Without a link the text is the token's own value.
    have hself : t.isResolved = false → t.rawValue = none →
        (∀ l, link? version t ≠ some l) → val i = .string t.value := by
      intro hres hraw hnone
      rw [hown hres (Option.eq_none_iff_forall_ne_some.mpr hnone), Token.ownValue, hraw]
      rfl
    refine ⟨hentry, ?_, ?_, ?_, ?_, ?_⟩
    · intro hres v hraw
      have hnone : link? version t = none := by simp [link?, hraw]
      rw [hown hres hnone, Token.ownValue, hraw]
      rfl
    · intro hres hraw path hwhole
      exact hlink hres _ (link?_eq_some.mpr ⟨hraw, .inl ⟨path, hwhole, rfl⟩⟩)
    · intro hres hraw hwhole hcurly
      refine hself hres hraw fun l hl => ?_
      obtain ⟨-, ⟨path, hpath, -⟩ | ⟨hnil, -⟩⟩ := link?_eq_some.mp hl
      · rw [hwhole] at hpath
        cases hpath
      · exact hcurly hnil
    · intro hres hraw hcurly hdraft path hpath
      exact hlink hres _ (link?_eq_some.mpr ⟨hraw, .inr ⟨hcurly, hdraft, path, hpath, rfl⟩⟩)
    · intro hres hraw hcurly hplain
      refine hself hres hraw fun l hl => ?_
      obtain ⟨-, ⟨path, hwhole, -⟩ | ⟨-, hdraft, path, hpath, -⟩⟩ := link?_eq_some.mp hl
      · rw [wholePath?_eq_none_of_curlyPaths hcurly] at hwhole
        cases hwhole
      · exact hplain.elim hdraft fun h => h path hpath

/-! ## The value that the equations give -/

/-- The value at a place, by unfolding the equations. -/
inductive Denotes (tokens : List Token) (version : Version) : Nat → Json.Value → Prop
  /-- A token that is resolved on entry keeps its value. -/
  | entry {i : Nat} {t : Token} {v : Json.Value} (ht : tokens[i]? = some t)
      (hres : t.isResolved = true) (hv : t.resolvedValue = some v) : Denotes tokens version i v
  /-- A token without a link has its own value. -/
  | own {i : Nat} {t : Token} (ht : tokens[i]? = some t) (hres : t.isResolved = false)
      (hlink : link? version t = none) : Denotes tokens version i t.ownValue
  /-- A token with a link has the value of the first token that its link names. -/
  | link {i j : Nat} {t : Token} {l : Link} {v : Json.Value} (ht : tokens[i]? = some t)
      (hres : t.isResolved = false) (hlink : link? version t = some l)
      (hj : firstPlace? tokens l.name = some j) (hv : Denotes tokens version j v) :
      Denotes tokens version i v

/-- The token at place `i` is not resolved on entry and its link leads to place `j`. -/
def Follows (tokens : List Token) (version : Version) (i j : Nat) : Prop :=
  ∃ t l, tokens[i]? = some t ∧ t.isResolved = false ∧ link? version t = some l ∧
    firstPlace? tokens l.name = some j

variable {tokens : List Token} {version : Version}

/-- A solution at all places that links lead to agrees with the unfolding of the equations. -/
lemma Denotes.eq_of_equations {val : Nat → Json.Value} {inside : Nat → Prop}
    (hclosed : ∀ i j, inside i → Follows tokens version i j → inside j)
    (hval : ∀ i t, inside i → tokens[i]? = some t → EquationAt tokens version val i t)
    {i : Nat} {v : Json.Value} (h : Denotes tokens version i v) (hi : inside i) : val i = v := by
  induction h with
  | entry ht hres hv =>
    have hentry := (hval _ _ hi ht).entry hres
    rw [hv] at hentry
    exact (Option.some.inj hentry).symm
  | own ht hres hlink => exact (equationAt_iff.mp (hval _ _ hi ht)).2.1 hres hlink
  | @link i j t l v ht hres hlink hj _ ih =>
    obtain ⟨k, hk, heq⟩ := (equationAt_iff.mp (hval _ _ hi ht)).2.2 hres l hlink
    rw [hj] at hk
    cases hk
    rw [heq]
    exact ih (hclosed _ _ hi ⟨t, l, ht, hres, hlink, hj⟩)

/-- The ways in which a token gets a value, one for each kind of token. -/
lemma denotes_iff {i : Nat} {t : Token} (ht : tokens[i]? = some t) {v : Json.Value} :
    Denotes tokens version i v ↔
      (t.isResolved = true ∧ t.resolvedValue = some v) ∨
      (t.isResolved = false ∧ link? version t = none ∧ t.ownValue = v) ∨
      (t.isResolved = false ∧ ∃ l j, link? version t = some l ∧
        firstPlace? tokens l.name = some j ∧ Denotes tokens version j v) := by
  constructor
  · intro h
    cases h with
    | entry ht' hres hv =>
      cases ht.symm.trans ht'
      exact .inl ⟨hres, hv⟩
    | own ht' hres hlink =>
      cases ht.symm.trans ht'
      exact .inr (.inl ⟨hres, hlink, rfl⟩)
    | link ht' hres hlink hj hv =>
      cases ht.symm.trans ht'
      exact .inr (.inr ⟨hres, _, _, hlink, hj, hv⟩)
  · rintro (⟨hres, hv⟩ | ⟨hres, hlink, rfl⟩ | ⟨hres, l, j, hlink, hj, hv⟩)
    · exact .entry ht hres hv
    · exact .own ht hres hlink
    · exact .link ht hres hlink hj hv

/-- A token that is resolved means its resolved value. -/
lemma denotes_of_resolved {i : Nat} {t : Token} (ht : tokens[i]? = some t)
    (hres : t.isResolved = true) {v : Json.Value} :
    Denotes tokens version i v ↔ t.resolvedValue = some v := by
  simp [denotes_iff ht, hres]

/-- A token that is no reference means its own value. -/
lemma denotes_of_own {i : Nat} {t : Token} (ht : tokens[i]? = some t)
    (hres : t.isResolved = false) (hlink : link? version t = none) {v : Json.Value} :
    Denotes tokens version i v ↔ t.ownValue = v := by
  simp [denotes_iff ht, hres, hlink]

/-- A link passes on the value of its target. -/
lemma Follows.denotes {i j : Nat} (h : Follows tokens version i j) {v : Json.Value} :
    Denotes tokens version i v ↔ Denotes tokens version j v := by
  obtain ⟨t, l, ht, hres, hlink, hj⟩ := h
  simp [denotes_iff ht, hres, hlink, hj]

/-- What the equations give for a place is one value. -/
lemma Denotes.unique {i : Nat} {v w : Json.Value} (hv : Denotes tokens version i v)
    (hw : Denotes tokens version i w) : v = w := by
  induction hv with
  | entry ht hres hv =>
    rw [denotes_of_resolved ht hres, hv] at hw
    exact Option.some.inj hw
  | own ht hres hlink => exact (denotes_of_own ht hres hlink).mp hw
  | link ht hres hlink hj _ ih =>
    have hfollows : Follows tokens version _ _ := ⟨_, _, ht, hres, hlink, hj⟩
    exact ih (hfollows.denotes.mp hw)

/-- Where the equations give a value, an assignment of such values solves them. -/
lemma Denotes.equationAt {val : Nat → Json.Value}
    (hval : ∀ j w, Denotes tokens version j w → val j = w) {i : Nat} {v : Json.Value} {t : Token}
    (h : Denotes tokens version i v) (ht : tokens[i]? = some t) :
    EquationAt tokens version val i t := by
  have hi := hval i v h
  rw [equationAt_iff]
  cases h with
  | entry ht' hres hv =>
    cases ht.symm.trans ht'
    exact ⟨fun _ => by rw [hv, hi], fun h => by simp [hres] at h, fun h => by simp [hres] at h⟩
  | own ht' hres hlink =>
    cases ht.symm.trans ht'
    exact ⟨fun h => by simp [hres] at h, fun _ _ => hi, fun _ l hl => by simp [hlink] at hl⟩
  | @link _ j _ l _ ht' hres hlink hj hv =>
    cases ht.symm.trans ht'
    refine ⟨fun h => by simp [hres] at h, fun _ h => by simp [hlink] at h, fun _ l' hl => ?_⟩
    cases hlink.symm.trans hl
    exact ⟨j, hj, by rw [hi, hval j v hv]⟩

/-! ## Places without a value -/

/-- A token that is not resolved on entry and whose link names no token of the batch. -/
def IsBroken (tokens : List Token) (version : Version) (t : Token) : Prop :=
  t.isResolved = false ∧ ∃ l, link? version t = some l ∧ ∀ u ∈ tokens, u.name ≠ l.name

/-- Links lead from place `i` to a token with a broken link, the one at `i` included. -/
def Lost (tokens : List Token) (version : Version) (i : Nat) : Prop :=
  ∃ j t, ReflTransGen (Follows tokens version) i j ∧ tokens[j]? = some t ∧
    IsBroken tokens version t

lemma IsBroken.not_denotes {t : Token} (h : IsBroken tokens version t) {i : Nat}
    (ht : tokens[i]? = some t) {v : Json.Value} : ¬ Denotes tokens version i v := by
  obtain ⟨hres, l, hlink, hnone⟩ := h
  simp [denotes_iff ht, hres, hlink, firstPlace?_eq_none.mpr hnone]

/-- A token that is lost means nothing. -/
lemma Lost.not_denotes {i : Nat} (h : Lost tokens version i) {v : Json.Value} :
    ¬ Denotes tokens version i v := by
  obtain ⟨j, t, hreach, ht, hbroken⟩ := h
  induction hreach using ReflTransGen.head_induction_on with
  | refl => exact hbroken.not_denotes ht
  | head hfollows _ ih => exact fun hv => ih (hfollows.denotes.mp hv)

/-- A token that follows a lost one is lost. -/
lemma Follows.lost {i j : Nat} (h : Follows tokens version i j) (hj : Lost tokens version j) :
    Lost tokens version i := by
  obtain ⟨k, t, hreach, ht, hbroken⟩ := hj
  exact ⟨k, t, hreach.head h, ht, hbroken⟩

/-- The batch says of no token that it is resolved without giving its value. -/
def Consistent (tokens : List Token) : Prop :=
  ∀ t ∈ tokens, t.isResolved = true → t.resolvedValue.isSome

instance (tokens : List Token) : Decidable (Consistent tokens) :=
  inferInstanceAs (Decidable (∀ t ∈ tokens, t.isResolved = true → t.resolvedValue.isSome))

/-- At a place of a consistent batch the equations give a value, or links lead on from there or are
broken there. -/
lemma Consistent.cases (hc : Consistent tokens) {i : Nat} {t : Token} (ht : tokens[i]? = some t) :
    (∃ v, Denotes tokens version i v) ∨ IsBroken tokens version t ∨
      ∃ j, Follows tokens version i j := by
  cases hres : t.isResolved with
  | true =>
    obtain ⟨v, hv⟩ := Option.isSome_iff_exists.mp (hc t (List.mem_of_getElem? ht) hres)
    exact .inl ⟨v, .entry ht hres hv⟩
  | false =>
    cases hlink : link? version t with
    | none => exact .inl ⟨_, .own ht hres hlink⟩
    | some l =>
      cases hj : firstPlace? tokens l.name with
      | none => exact .inr (.inl ⟨hres, l, hlink, firstPlace?_eq_none.mp hj⟩)
      | some j => exact .inr (.inr ⟨j, t, l, ht, hres, hlink, hj⟩)

end Resolution

end DesignTokens
