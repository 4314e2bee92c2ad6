import DesignTokens.Proofs.DeclaredTokens

/-!
# The keys of a JSON document in its text

A reader gives back the rest of its text: a suffix of what it was given (`rest_of_number` and the
like). In a text without backslashes a string is its own spelling, so a key stands in the text
between two quotes. `Spells` says that the keys of a path stand there one after the other. That is
so for every path that leads to something in the document (`spells_of_parse`): what is read for a
field is read behind its key, of whatever fields with that key it is the last one.
-/

namespace DesignTokens.Json

/-- A key between quotes. -/
def quoted (key : String) : List Char :=
  '"' :: (key.toList ++ ['"'])

/-- The keys stand in the text one after the other, each between quotes. -/
def Spells (s : List Char) : List String → Prop
  | [] => True
  | key :: path => ∃ before rest, s = before ++ (quoted key ++ rest) ∧ Spells rest path

/-- Keys that are spelled in an ending of a text are spelled in the text. -/
lemma Spells.of_suffix {s s' : List Char} {path : List String} (h : Spells s path)
    (hs : s <:+ s') : Spells s' path := by
  cases path with
  | nil => trivial
  | cons key path =>
    obtain ⟨before, rest, rfl, hrest⟩ := h
    obtain ⟨lead, rfl⟩ := hs
    exact ⟨lead ++ before, rest, by simp, hrest⟩

/-! ## What is left after a literal -/

/-- Blanks are dropped from the front. -/
lemma rest_of_skipGaps (s : List Char) : skipGaps s <:+ s :=
  List.dropWhile_suffix _

/-- A word is read from the front. -/
lemma rest_of_word {letters s r : List Char} (h : word letters s = .ok r) : r <:+ s := by
  induction letters generalizing s with
  | nil =>
    rw [word] at h
    cases h
    exact List.suffix_refl _
  | cons l letters ih =>
    cases s with
    | nil =>
      rw [word] at h
      cases h
    | cons c s =>
      rw [word] at h
      split_ifs at h
      exact (ih h).trans (List.suffix_cons ..)

/-- Digits are read from the front. -/
lemma rest_of_readDigits (n count : Nat) (s : List Char) : (readDigits n count s).2.2 <:+ s := by
  induction s generalizing n count with
  | nil => exact List.suffix_refl _
  | cons c s ih =>
    rw [readDigits]
    cases digitValue? c with
    | none => exact List.suffix_refl _
    | some d => exact (ih _ _).trans (List.suffix_cons ..)

section Numbers

variable {negative : Bool} {significand : Nat} {exponent : Int} {s r : List Char} {n : Number}

lemma rest_of_finishDouble (h : finishDouble negative significand exponent s = .ok (n, r)) :
    r <:+ s := by
  rw [finishDouble] at h
  split at h
  · cases h
    exact List.suffix_refl _
  · cases h

lemma rest_of_exponentDigits {down : Bool}
    (h : exponentDigits negative significand exponent down s = .ok (n, r)) : r <:+ s := by
  rw [exponentDigits.eq_def] at h
  split at h
  · cases h
  · next c s' =>
    have hrest := rest_of_readDigits 0 0 (c :: s')
    simp only at h
    split_ifs at h
    · cases h
      exact hrest
    · exact (rest_of_finishDouble h).trans hrest
    · exact (rest_of_finishDouble h).trans hrest

/-- The sign and the digits of an exponent are read from the front. -/
lemma rest_of_exponentPart
    (h : exponentPart negative significand exponent s = .ok (n, r)) : r <:+ s := by
  rw [exponentPart.eq_def] at h
  split at h
  · exact (rest_of_exponentDigits h).trans (List.suffix_cons ..)
  · exact (rest_of_exponentDigits h).trans (List.suffix_cons ..)
  · exact rest_of_exponentDigits h

lemma rest_of_fractionEnd
    (h : fractionEnd negative significand exponent s = .ok (n, r)) : r <:+ s := by
  rw [fractionEnd.eq_def] at h
  split at h
  · exact (rest_of_exponentPart h).trans (List.suffix_cons ..)
  · exact (rest_of_exponentPart h).trans (List.suffix_cons ..)
  · exact rest_of_finishDouble h

/-- A point and the digits behind it are read from the front. -/
lemma rest_of_fractionPart (h : fractionPart negative significand s = .ok (n, r)) : r <:+ s := by
  rw [fractionPart] at h
  simp only at h
  split_ifs at h
  exact (rest_of_fractionEnd h).trans (rest_of_readDigits ..)

lemma rest_of_integerNumber (h : integerNumber negative significand s = .ok (n, r)) :
    r <:+ s := by
  rw [integerNumber] at h
  split_ifs at h
  · cases h
    exact List.suffix_refl _
  · cases h
    exact List.suffix_refl _
  · exact rest_of_finishDouble h

/-- What may follow the digits of a number is read from the front. -/
lemma rest_of_numberEnd (h : numberEnd negative significand s = .ok (n, r)) : r <:+ s := by
  rw [numberEnd.eq_def] at h
  split at h
  · exact (rest_of_fractionPart h).trans (List.suffix_cons ..)
  · exact (rest_of_exponentPart h).trans (List.suffix_cons ..)
  · exact (rest_of_exponentPart h).trans (List.suffix_cons ..)
  · exact rest_of_integerNumber h

/-- A number is read from the front, whichever form it has. -/
lemma rest_of_number (h : number negative s = .ok (n, r)) : r <:+ s := by
  rw [number.eq_def] at h
  split at h
  · cases h
  · split_ifs at h
    exact (rest_of_numberEnd h).trans (List.suffix_cons ..)
  · next c s _ =>
    split_ifs at h
    exact (rest_of_numberEnd h).trans (rest_of_readDigits 0 0 (c :: s))

end Numbers

/-- A character that is no quote and no backslash stands for itself in a string. -/
lemma stringRest_cons {c : Char} (hquote : c ≠ '"') (hslash : c ≠ '\\') (s : List Char) :
    stringRest (c :: s) =
      if c.toNat < 32 then .error ⟨.controlCharacter, c :: s, 1⟩ else prepend c (stringRest s) := by
  rw [stringRest] <;> simp_all

/-- Without backslashes a string is its own spelling. -/
lemma rest_of_stringRest {s x r : List Char} (hplain : '\\' ∉ s)
    (h : stringRest s = .ok (x, r)) : s = x ++ '"' :: r := by
  induction s generalizing x with
  | nil =>
    rw [stringRest] at h
    cases h
  | cons c s ih =>
    rw [List.mem_cons, not_or] at hplain
    by_cases hquote : c = '"'
    · subst hquote
      rw [stringRest] at h
      cases h
      rfl
    · rw [stringRest_cons hquote (Ne.symm hplain.1)] at h
      split_ifs at h
      cases hs : stringRest s with
      | error f =>
        rw [hs] at h
        cases h
      | ok p =>
        obtain ⟨y, r'⟩ := p
        rw [hs] at h
        cases h
        rw [ih hplain.2 hs]
        rfl

/-! ## What is left after a value, and what is spelled in it -/

/-- Everything in the value has the keys of its path in the text. -/
def SpelledIn (s : List Char) (v : Value) : Prop :=
  ∀ path w, v.at? path = some w → Spells s path

/-- Paths that are spelled in an ending of a text are spelled in the text. -/
lemma SpelledIn.of_suffix {s s' : List Char} {v : Value} (h : SpelledIn s v) (hs : s <:+ s') :
    SpelledIn s' v :=
  fun path w hw => (h path w hw).of_suffix hs

/-- Only an object has something below it. -/
lemma spelledIn_of_get? {s : List Char} {v : Value}
    (h : ∀ key w, v.get? key = some w → ∀ path u, w.at? path = some u → Spells s (key :: path)) :
    SpelledIn s v := by
  intro path u hu
  cases path with
  | nil => trivial
  | cons key path =>
    obtain ⟨w, hw, hu⟩ := Option.bind_eq_some_iff.mp hu
    exact h key w hw path u hu

/-- The fields of an object are among those it was made of. -/
lemma Fields.mem_of_mem_ofList {entries : List (String × Value)} {e : String × Value}
    (h : e ∈ Fields.ofList entries) : e ∈ entries := by
  induction entries using List.reverseRecOn with
  | nil => cases h
  | append_singleton entries last ih =>
    rw [Fields.ofList, List.foldl_append] at h
    rcases Fields.mem_insert h with rfl | h
    · exact List.mem_append_right _ (List.mem_singleton_self _)
    · exact List.mem_append_left _ (ih h)

/-- The field's key, and behind it the keys below, stand in the text. -/
def FieldSpelledIn (s : List Char) (e : String × Value) : Prop :=
  ∀ path w, e.2.at? path = some w → Spells s (e.1 :: path)

lemma FieldSpelledIn.of_suffix {s s' : List Char} {e : String × Value} (h : FieldSpelledIn s e)
    (hs : s <:+ s') : FieldSpelledIn s' e :=
  fun path w hw => (h path w hw).of_suffix hs

/-- An object is spelled where its fields are, and of equal keys the last one counts. -/
lemma spelledIn_ofFields {s : List Char} {entries : List (String × Value)}
    (h : ∀ e ∈ entries, FieldSpelledIn s e) : SpelledIn s (.ofFields entries) :=
  spelledIn_of_get? fun _ _ hw =>
    h _ (Fields.mem_of_mem_ofList (Fields.mem_of_get? hw))

/-- A text without backslashes is read from the front, and what is read is spelled in it. -/
structure ReadsSpelled (fuel : Nat) : Prop where
  value : ∀ {depth s v r}, '\\' ∉ s → readValue fuel depth s = .ok (v, r) →
    r <:+ s ∧ SpelledIn s v
  items : ∀ {depth first s vs r}, '\\' ∉ s → readItems fuel depth first s = .ok (vs, r) → r <:+ s
  item : ∀ {depth s vs r}, '\\' ∉ s → readItem fuel depth s = .ok (vs, r) → r <:+ s
  fields : ∀ {depth first s fs r}, '\\' ∉ s → readFields fuel depth first s = .ok (fs, r) →
    r <:+ s ∧ ∀ e ∈ fs, FieldSpelledIn s e
  /-- The opening quote of the first key is read already. -/
  field : ∀ {depth s fs r}, '\\' ∉ s → readField fuel depth s = .ok (fs, r) →
    r <:+ s ∧ ∀ e ∈ fs, FieldSpelledIn ('"' :: s) e

namespace ReadsSpelled

lemma zero : ReadsSpelled 0 where
  value _ h := by
    rw [readValue] at h
    cases h
  items _ h := by
    rw [readItems] at h
    cases h
  item _ h := by
    rw [readItem] at h
    cases h
  fields _ h := by
    rw [readFields] at h
    cases h
  field _ h := by
    rw [readField] at h
    cases h

variable {fuel depth : Nat} {first : Bool} {s r : List Char}

/-- A value is read by its first character: an object, an array, a string or another scalar. -/
lemma value_succ (ih : ReadsSpelled fuel) {v : Value} (hplain : '\\' ∉ s)
    (h : readValue (fuel + 1) depth s = .ok (v, r)) : r <:+ s ∧ SpelledIn s v := by
  rw [readValue] at h
  have hgaps := rest_of_skipGaps s
  cases hs : skipGaps s with
  | nil =>
    rw [hs] at h
    cases h
  | cons c t =>
    rw [hs] at h hgaps
    have ht : t <:+ s := (List.suffix_cons c t).trans hgaps
    have hplain' : '\\' ∉ t := fun hmem => hplain (ht.subset hmem)
    -- The first character decides what is read; only an object has something below it.
    have hbare : ∀ {v : Value}, (∀ key, v.get? key = none) → SpelledIn s v := by
      intro v hv
      refine spelledIn_of_get? fun key w hw => ?_
      rw [hv key] at hw
      cases hw
    simp only at h
    rcases eq_or_eq_of_ite h with h | h
    · obtain ⟨a, ha, heq⟩ := map_eq_ok h
      cases heq
      exact ⟨(rest_of_word ha).trans ht, hbare fun _ => rfl⟩
    rcases eq_or_eq_of_ite h with h | h
    · obtain ⟨a, ha, heq⟩ := map_eq_ok h
      cases heq
      exact ⟨(rest_of_word ha).trans ht, hbare fun _ => rfl⟩
    rcases eq_or_eq_of_ite h with h | h
    · obtain ⟨a, ha, heq⟩ := map_eq_ok h
      cases heq
      exact ⟨(rest_of_word ha).trans ht, hbare fun _ => rfl⟩
    rcases eq_or_eq_of_ite h with h | h
    · obtain ⟨⟨n, r'⟩, ha, heq⟩ := map_eq_ok h
      cases heq
      exact ⟨(rest_of_number ha).trans ht, hbare fun _ => rfl⟩
    rcases eq_or_eq_of_ite h with h | h
    · obtain ⟨⟨n, r'⟩, ha, heq⟩ := map_eq_ok h
      cases heq
      exact ⟨(rest_of_number ha).trans hgaps, hbare fun _ => rfl⟩
    rcases eq_or_eq_of_ite h with h | h
    · obtain ⟨⟨x, r'⟩, ha, heq⟩ := map_eq_ok h
      cases heq
      have hsuffix : r' <:+ t := ⟨x ++ ['"'], by rw [rest_of_stringRest hplain' ha]; simp⟩
      exact ⟨hsuffix.trans ht, hbare fun _ => rfl⟩
    rcases eq_or_eq_of_ite h with h | h
    · rcases eq_or_eq_of_ite h with h | h
      · cases h
      obtain ⟨⟨vs, r'⟩, ha, heq⟩ := map_eq_ok h
      cases heq
      exact ⟨(ih.items hplain' ha).trans ht, hbare fun _ => rfl⟩
    rcases eq_or_eq_of_ite h with h | h
    · rcases eq_or_eq_of_ite h with h | h
      · cases h
      obtain ⟨⟨fs, r'⟩, ha, heq⟩ := map_eq_ok h
      cases heq
      obtain ⟨hrest, hfields⟩ := ih.fields hplain' ha
      exact ⟨hrest.trans ht, (spelledIn_ofFields hfields).of_suffix ht⟩
    · cases h

lemma items_succ (ih : ReadsSpelled fuel) {vs : List Value} (hplain : '\\' ∉ s)
    (h : readItems (fuel + 1) depth first s = .ok (vs, r)) : r <:+ s := by
  rw [readItems] at h
  have hgaps := rest_of_skipGaps s
  cases hs : skipGaps s with
  | nil =>
    rw [hs] at h
    cases h
  | cons c t =>
    rw [hs] at h hgaps
    have ht : t <:+ s := (List.suffix_cons c t).trans hgaps
    simp only at h
    split_ifs at h
    · cases h
      exact ht
    · exact (ih.item (fun hmem => hplain (hgaps.subset hmem)) h).trans hgaps
    · have hgaps' := rest_of_skipGaps t
      cases hs' : skipGaps t with
      | nil =>
        rw [hs'] at h
        cases h
      | cons d u =>
        rw [hs'] at h hgaps'
        simp only at h
        split_ifs at h
        have hdu := hgaps'.trans ht
        exact (ih.item (fun hmem => hplain (hdu.subset hmem)) h).trans hdu

lemma item_succ (ih : ReadsSpelled fuel) {vs : List Value} (hplain : '\\' ∉ s)
    (h : readItem (fuel + 1) depth s = .ok (vs, r)) : r <:+ s := by
  rw [readItem] at h
  split at h
  · cases h
  · next v r' hvalue =>
    obtain ⟨⟨vs', r''⟩, hitems, heq⟩ := map_eq_ok h
    cases heq
    have hrest := (ih.value hplain hvalue).1
    exact (ih.items (fun hmem => hplain (hrest.subset hmem)) hitems).trans hrest

/-- The fields of an object are separated by commas and ended by a brace. -/
lemma fields_succ (ih : ReadsSpelled fuel) {fs : List (String × Value)} (hplain : '\\' ∉ s)
    (h : readFields (fuel + 1) depth first s = .ok (fs, r)) :
    r <:+ s ∧ ∀ e ∈ fs, FieldSpelledIn s e := by
  -- A field is read behind a quote that stands in the text.
  have hfield : ∀ {d u}, d = '"' → (d :: u) <:+ s → readField fuel depth u = .ok (fs, r) →
      r <:+ s ∧ ∀ e ∈ fs, FieldSpelledIn s e := by
    intro d u hd hdu hread
    subst hd
    have hu : u <:+ s := (List.suffix_cons _ u).trans hdu
    obtain ⟨hrest, hfields⟩ := ih.field (fun hmem => hplain (hu.subset hmem)) hread
    exact ⟨hrest.trans hu, fun e he => (hfields e he).of_suffix hdu⟩
  rw [readFields] at h
  have hgaps := rest_of_skipGaps s
  cases hs : skipGaps s with
  | nil =>
    rw [hs] at h
    cases h
  | cons c t =>
    rw [hs] at h hgaps
    have ht : t <:+ s := (List.suffix_cons c t).trans hgaps
    simp only at h
    split_ifs at h with _ _ hquote
    · cases h
      exact ⟨ht, by simp⟩
    · exact hfield hquote hgaps h
    · have hgaps' := rest_of_skipGaps t
      cases hs' : skipGaps t with
      | nil =>
        rw [hs'] at h
        cases h
      | cons d u =>
        rw [hs'] at h hgaps'
        simp only at h
        split_ifs at h with hquote'
        exact hfield hquote' (hgaps'.trans ht) h

/-- A field is its key in quotes, a colon, its value and the fields behind it. -/
lemma field_succ (ih : ReadsSpelled fuel) {fs : List (String × Value)} (hplain : '\\' ∉ s)
    (h : readField (fuel + 1) depth s = .ok (fs, r)) :
    r <:+ s ∧ ∀ e ∈ fs, FieldSpelledIn ('"' :: s) e := by
  rw [readField] at h
  split at h
  · cases h
  · next key r₁ hkey =>
    have hspelled := rest_of_stringRest hplain hkey
    have hr₁ : r₁ <:+ s := ⟨key ++ ['"'], by rw [hspelled]; simp⟩
    have hgaps := rest_of_skipGaps r₁
    split at h
    · cases h
    · next c t hs =>
      rw [hs] at hgaps
      split_ifs at h
      have ht : t <:+ r₁ := (List.suffix_cons c t).trans hgaps
      have hplain' : '\\' ∉ t := fun hmem => hplain ((ht.trans hr₁).subset hmem)
      split at h
      · cases h
      · next v r₂ hvalue =>
        obtain ⟨⟨fs', r₃⟩, hfields, heq⟩ := map_eq_ok h
        cases heq
        obtain ⟨hr₂, hv⟩ := ih.value hplain' hvalue
        have hr₂s : r₂ <:+ s := hr₂.trans (ht.trans hr₁)
        obtain ⟨hr₃, hrest⟩ := ih.fields (fun hmem => hplain (hr₂s.subset hmem)) hfields
        refine ⟨hr₃.trans hr₂s, List.forall_mem_cons.mpr ⟨?_, fun e he => ?_⟩⟩
        · -- The value is read behind the closing quote of its key.
          intro path w hw
          refine ⟨[], r₁, ?_, (hv path w hw).of_suffix ht⟩
          simp [quoted, hspelled]
        · exact (hrest e he).of_suffix (hr₂s.trans (List.suffix_cons ..))

end ReadsSpelled

/-- With any fuel, the paths of what is read are spelled in what it was read from. -/
lemma readsSpelled (fuel : Nat) : ReadsSpelled fuel := by
  induction fuel with
  | zero => exact .zero
  | succ fuel ih =>
    exact ⟨ih.value_succ, ih.items_succ, ih.item_succ, ih.fields_succ, ih.field_succ⟩

/-- In a text without backslashes, the keys of every path of the document stand one after the
other. -/
lemma spells_of_parse {text : String} {v : Value} (h : Value.parse text = .ok v)
    (hplain : '\\' ∉ text.toList) : SpelledIn text.toList v := by
  unfold Value.parse readDocument at h
  split at h
  · cases h
  · next v' r hvalue =>
    split at h
    · cases h
      exact ((readsSpelled _).value hplain hvalue).2
    · cases h

end DesignTokens.Json
