import DesignTokens.Editor.Completion
import DesignTokens.Proofs.OverlappingUsages

/-!
# Completions extend what is typed

A column of a line, whatever its number, has a part of the line before it (`Text.IsBefore`) that
ends between two characters. What is typed at the end of that part comes after the start of a call
or after an opening brace (`TypedAfter`), and there is one way at most to read it so
(`TypedAfter.unique`): it follows the last opening character. The tokens that are offered are those
with a label that begins with it, and each offer replaces it by the label
(`completions_extend_typed`).
-/

namespace DesignTokens

/-! ## Columns and bytes -/

namespace Text

/-- The number of bytes before a column. Of the line, `passed` units and `offset` bytes come before
the characters that are left. -/
def byteOffset (column : Nat) : (passed offset : Nat) → List Char → Nat
  | _, offset, [] => offset
  | passed, offset, c :: cs =>
    if column ≤ passed then offset
    else byteOffset column (passed + unitWidth c) (offset + c.utf8Size) cs

/-- `before` is the part of a line before a column: the whole line if that ends there or earlier,
and with all of a character that has the column in its middle. -/
structure IsBefore (line : List Char) (column : Nat) (before : List Char) : Prop where
  begins : before <+: line
  clamped : units line ≤ column → before = line
  rounded : column < units line → units before = column ∨
    units before = column + 1 ∧ ∀ other, other <+: line → units other ≠ column

lemma charsBefore_zero (cs : List Char) : charsBefore 0 cs = 0 := by
  rw [charsBefore]

lemma unitWidth_le_two (c : Char) : unitWidth c ≤ 2 := by
  rw [unitWidth]
  split <;> decide

lemma isBefore_zero (line : List Char) : IsBefore line 0 [] := by
  refine ⟨List.nil_prefix, fun hunits => ?_, fun _ => .inl rfl⟩
  cases line with
  | nil => rfl
  | cons c cs =>
    have hwidth := unitWidth_pos c
    rw [units_cons] at hunits
    omega

/-- Nothing stands before the first column. -/
lemma IsBefore.units_eq_zero {line before : List Char} (h : IsBefore line 0 before) :
    units before = 0 := by
  rcases Nat.eq_zero_or_pos (units line) with hunits | hunits
  · rw [h.clamped hunits.le, hunits]
  · rcases h.rounded hunits with heq | ⟨-, hnone⟩
    · exact heq
    · exact absurd units_nil (hnone [] List.nil_prefix)

/-- One character more. -/
lemma IsBefore.cons {cs before : List Char} {c : Char} {column : Nat}
    (h : IsBefore cs (column + 1 - unitWidth c) before) :
    IsBefore (c :: cs) (column + 1) (c :: before) := by
  have hwidth := unitWidth_pos c
  refine ⟨List.cons_prefix_cons.mpr ⟨rfl, h.begins⟩, fun hunits => ?_, fun hunits => ?_⟩
  · rw [units_cons] at hunits
    rw [h.clamped (by omega)]
  · rw [units_cons] at hunits ⊢
    have hother : (∀ other, other <+: cs → unitWidth c + units other ≠ column + 1) →
        ∀ other, other <+: c :: cs → units other ≠ column + 1 := by
      intro hcs other hbegins
      cases other with
      | nil => simp
      | cons d other =>
        obtain ⟨rfl, hrest⟩ := List.cons_prefix_cons.mp hbegins
        exact hcs other hrest
    by_cases hfits : unitWidth c ≤ column + 1
    · rcases h.rounded (by omega) with heq | ⟨heq, hnone⟩
      · exact .inl (by omega)
      · refine .inr ⟨by omega, hother fun other hbegins hunits => hnone other hbegins ?_⟩
        omega
    · -- The column is in the middle of this character.
      have htwo := unitWidth_le_two c
      have hcolumn : column + 1 - unitWidth c = 0 := by omega
      have hbefore := (hcolumn ▸ h).units_eq_zero
      exact .inr ⟨by omega, hother fun other _ => by omega⟩

/-- The characters before a column are counted by `charsBefore`. -/
lemma isBefore_take (column : Nat) (line : List Char) :
    IsBefore line column (line.take (charsBefore column line)) := by
  induction line generalizing column with
  | nil =>
    rw [List.take_nil]
    exact ⟨List.prefix_rfl, fun _ => rfl, fun hunits => absurd hunits (Nat.not_lt_zero _)⟩
  | cons c cs ih =>
    cases column with
    | zero =>
      rw [charsBefore_zero]
      exact isBefore_zero _
    | succ column =>
      rw [charsBefore, Nat.add_comm 1, List.take_succ_cons]
      exact (ih _).cons

/-- A column has one part of a line before it. -/
lemma IsBefore.unique {line before before' : List Char} {column : Nat}
    (h : IsBefore line column before) (h' : IsBefore line column before') : before = before' := by
  rcases Nat.lt_or_ge column (units line) with hlt | hge
  · have hunits : units before = units before' := by
      rcases h.rounded hlt with heq | ⟨heq, hnone⟩
      · rcases h'.rounded hlt with heq' | ⟨-, hnone'⟩
        · rw [heq, heq']
        · exact absurd heq (hnone' before h.begins)
      · rcases h'.rounded hlt with heq' | ⟨heq', -⟩
        · exact absurd heq' (hnone before' h'.begins)
        · rw [heq, heq']
    obtain ⟨after, hafter⟩ := h.begins
    obtain ⟨after', hafter'⟩ := h'.begins
    exact Editor.eq_of_units_eq (hafter.trans hafter'.symm) hunits
  · rw [h.clamped hge, h'.clamped hge]

/-- The offset of a column is the number of bytes before it. -/
lemma byteOffset_eq (column passed offset : Nat) (line : List Char) :
    byteOffset column passed offset line =
      offset + bytes (line.take (charsBefore (column - passed) line)) := by
  induction line generalizing passed offset with
  | nil => simp [byteOffset, bytes]
  | cons c cs ih =>
    rw [byteOffset]
    split_ifs with hreached
    · rw [Nat.sub_eq_zero_of_le hreached, charsBefore_zero, List.take_zero, bytes, Nat.add_zero]
    · obtain ⟨left, hleft⟩ : ∃ left, column - passed = left + 1 := ⟨column - passed - 1, by omega⟩
      have hnext : column - (passed + unitWidth c) = left + 1 - unitWidth c := by omega
      rw [ih, hnext, hleft, charsBefore, Nat.add_comm 1, List.take_succ_cons, bytes, Nat.add_assoc]

/-- Bytes are counted as the size of the text in UTF-8. -/
lemma bytes_eq_utf8ByteSize (cs : List Char) : bytes cs = (String.ofList cs).utf8ByteSize := by
  induction cs with
  | nil => rfl
  | cons c cs ih => simp [bytes, ih, String.ofList_cons]

/-- The bytes of a beginning of a text end between two characters. -/
lemma isValid_bytes {before line : List Char} (h : before <+: line) :
    (String.Pos.Raw.mk (bytes before)).IsValid (String.ofList line) := by
  obtain ⟨after, rfl⟩ := h
  rw [String.Pos.Raw.isValid_iff_exists_append]
  refine ⟨String.ofList before, String.ofList after, String.ofList_append, ?_⟩
  exact String.Pos.Raw.ext (bytes_eq_utf8ByteSize before)

lemma startsWith_eq (start s : String) : startsWith start s = start.toList.isPrefixOf s.toList := by
  rw [Bool.eq_iff_iff, startsWith_iff, List.isPrefixOf_iff_prefix]

end Text

namespace Editor

open Text (units bytes)

/-! ## What is typed -/

/-- What can be typed of a usage, and what comes before it: the start of a call and blanks, or an
opening brace. -/
inductive TypedAfter : UsageKind → (lead typed : List Char) → Prop
  | call {front gap name : List Char} (blanks : Blanks gap)
      (chars : ∀ c ∈ name, isVariableChar c = true) :
      TypedAfter .cssVariable (front ++ ['v', 'a', 'r', '('] ++ gap) ('-' :: '-' :: name)
  | reference {front name : List Char} (chars : ∀ c ∈ name, isTypedAliasChar c = true) :
      TypedAfter .reference (front ++ ['{']) name

/-- The character that opens a usage. -/
def opener : UsageKind → Char
  | .cssVariable => '('
  | .reference => '{'

/-- The last of some characters in a text, and what follows it. -/
lemma eq_of_last {p : Char → Bool} {a b a' b' : List Char} {x x' : Char}
    (h : a ++ x :: b = a' ++ x' :: b') (hx : p x = true) (hx' : p x' = true)
    (hb : ∀ c ∈ b, p c = false) (hb' : ∀ c ∈ b', p c = false) : x = x' ∧ b = b' := by
  rcases List.append_eq_append_iff.mp h with ⟨m, -, hm⟩ | ⟨m, -, hm⟩
  · cases m with
    | nil => exact List.cons.inj hm
    | cons d m =>
      obtain ⟨-, rfl⟩ := List.cons.inj hm
      rw [hb x' (by simp)] at hx'
      cases hx'
  · cases m with
    | nil =>
      obtain ⟨rfl, rfl⟩ := List.cons.inj hm
      exact ⟨rfl, rfl⟩
    | cons d m =>
      obtain ⟨-, rfl⟩ := List.cons.inj hm
      rw [hb' x (by simp)] at hx
      cases hx

/-- Whether a character opens a usage of some kind. -/
def isOpener (c : Char) : Bool :=
  c = '(' || c = '{'

/-- No character of a name opens a variable or an alias. -/
lemma isOpener_eq_false {p : Char → Bool} (hcall : p '(' = false) (hbrace : p '{' = false)
    {c : Char} (hc : p c = true) : isOpener c = false := by
  by_contra h
  simp only [isOpener, Bool.not_eq_false, Bool.or_eq_true, decide_eq_true_eq] at h
  rcases h with rfl | rfl
  · exact absurd hc (by simp [hcall])
  · exact absurd hc (by simp [hbrace])

/-- No character of an alias is a blank. -/
lemma isBlank_of_isTypedAliasChar {c : Char} (h : isTypedAliasChar c = true) :
    Text.isBlank c = false := by
  rw [isTypedAliasChar, Bool.or_eq_true, List.contains_iff_mem] at h
  rcases h with h | h
  · exact isBlank_of_isVariableChar (by simp [isVariableChar, h])
  · have hall : ['_', '$', '@', '.', '-'].any Text.isBlank = false := by decide
    exact Bool.eq_false_of_not_eq_true (List.any_eq_false.mp hall c h)

/-- What is typed is what follows the last opening character, without blanks in front. -/
lemma TypedAfter.exists_opened {kind : UsageKind} {lead typed : List Char}
    (h : TypedAfter kind lead typed) :
    ∃ front opened, lead ++ typed = front ++ opener kind :: opened ∧
      (∀ c ∈ opened, isOpener c = false) ∧ Text.trimStart opened = typed := by
  cases h with
  | @call front gap name blanks chars =>
    refine ⟨front ++ ['v', 'a', 'r'], gap ++ '-' :: '-' :: name, by simp [opener], ?_, ?_⟩
    · intro c hc
      rcases List.mem_append.mp hc with hc | hc
      · exact isOpener_eq_false (by decide) (by decide) (blanks c hc)
      · refine isOpener_eq_false (p := isVariableChar) (by decide) (by decide) ?_
        rw [List.mem_cons, List.mem_cons] at hc
        rcases hc with rfl | rfl | hc
        · decide
        · decide
        · exact chars c hc
    · exact (span_append blanks (by simp; decide)).2
  | @reference front name chars =>
    refine ⟨front, typed, by simp [opener], fun c hc => ?_, ?_⟩
    · exact isOpener_eq_false (by decide) (by decide) (chars c hc)
    · have hblank : ∀ c ∈ typed.head?, Text.isBlank c = false := fun c hc =>
        isBlank_of_isTypedAliasChar (chars c (List.mem_of_mem_head? hc))
      exact (span_append (a := []) (by simp) hblank).2

lemma isOpener_opener (kind : UsageKind) : isOpener (opener kind) = true := by
  cases kind <;> decide

/-- The opening character tells the kind. -/
lemma opener_inj {kind kind' : UsageKind} (h : opener kind = opener kind') : kind = kind' := by
  revert kind kind'
  rintro (_ | _) (_ | _) <;> decide

/-- There is one way at most to read the end of a text as something typed. -/
lemma TypedAfter.unique {kind kind' : UsageKind} {lead typed lead' typed' : List Char}
    (h : TypedAfter kind lead typed) (h' : TypedAfter kind' lead' typed')
    (heq : lead ++ typed = lead' ++ typed') : kind = kind' ∧ typed = typed' := by
  obtain ⟨front, opened, htext, hopened, htyped⟩ := h.exists_opened
  obtain ⟨front', opened', htext', hopened', htyped'⟩ := h'.exists_opened
  rw [htext, htext'] at heq
  obtain ⟨hopener, hsame⟩ :=
    eq_of_last heq (isOpener_opener kind) (isOpener_opener kind') hopened hopened'
  exact ⟨opener_inj hopener, by rw [← htyped, ← htyped', hsame]⟩

/-! ## How it is found -/

/-- What is found is found at the start of an ending of the text. -/
lemma exists_of_typedIn {start? : List Char → Option (List Char)} {cs typed : List Char}
    (h : typedIn start? cs = some typed) :
    ∃ front rest, cs = front ++ rest ∧ start? rest = some typed := by
  induction cs with
  | nil => cases h
  | cons c cs ih =>
    rw [typedIn, Option.or_eq_some_iff] at h
    rcases h with h | ⟨-, h⟩
    · exact ⟨[], c :: cs, rfl, h⟩
    · obtain ⟨front, rest, rfl, hrest⟩ := ih h
      exact ⟨c :: front, rest, rfl, hrest⟩

/-- What an ending with a start has typed is found if no other ending has anything else typed. -/
lemma typedIn_append {start? : List Char → Option (List Char)} {front rest typed : List Char}
    (hne : rest ≠ []) (h : start? rest = some typed)
    (hsame : ∀ front' rest' typed', front ++ rest = front' ++ rest' → start? rest' = some typed' →
      typed' = typed) : typedIn start? (front ++ rest) = some typed := by
  induction front with
  | nil =>
    obtain ⟨c, cs, rfl⟩ := List.exists_cons_of_ne_nil hne
    rw [List.nil_append, typedIn, h, Option.some_or]
  | cons c front ih =>
    rw [List.cons_append, typedIn, ih fun front' rest' typed' heq =>
      hsame (c :: front') rest' typed' (by rw [List.cons_append, heq, List.cons_append])]
    cases hfirst : start? (c :: (front ++ rest)) with
    | none => rfl
    | some typed' => rw [hsame [] _ typed' rfl hfirst, Option.some_or]

/-- A variable that is typed: the call, blanks, two dashes and a name, up to the cursor. -/
lemma typedVariable?_eq_some {cs typed : List Char} :
    typedVariable? cs = some typed ↔ ∃ gap name, cs = callStart ++ gap ++ typed ∧
      typed = '-' :: '-' :: name ∧ Blanks gap ∧ ∀ c ∈ name, isVariableChar c = true := by
  rw [typedVariable?]
  constructor
  · intro h
    split at h
    · next name hstart =>
      split_ifs at h with hall
      cases h
      obtain ⟨gap, hcs, hblanks⟩ := afterCallStart?_eq_some hstart
      exact ⟨gap, name, hcs, rfl, hblanks, List.all_eq_true.mp hall⟩
    · cases h
  · rintro ⟨gap, name, rfl, rfl, hblanks, hall⟩
    have hstart : afterCallStart? (callStart ++ gap ++ '-' :: '-' :: name) =
        some ('-' :: '-' :: name) := by
      rw [afterCallStart?, List.append_assoc, Text.dropStart?_eq_some.mpr rfl, Option.map_some,
        Text.trimStart, (span_append hblanks (by simp; decide)).2]
    rw [hstart]
    simp only [List.all_eq_true.mpr hall, if_true]

/-- An alias that is typed: a brace and a name, up to the cursor. -/
lemma typedAlias?_eq_some {cs typed : List Char} :
    typedAlias? cs = some typed ↔
      cs = '{' :: typed ∧ ∀ c ∈ typed, isTypedAliasChar c = true := by
  rw [typedAlias?.eq_def]
  constructor
  · intro h
    split at h
    · split_ifs at h with hall
      cases h
      exact ⟨rfl, List.all_eq_true.mp hall⟩
    · cases h
  · rintro ⟨rfl, hall⟩
    simp only [List.all_eq_true.mpr hall, if_true]

/-- What the start of a usage of a kind has typed. -/
def startOf? : UsageKind → List Char → Option (List Char)
  | .cssVariable => typedVariable?
  | .reference => typedAlias?

/-- What starts in an ending is typed after what is before it. -/
lemma startOf?_eq_some {kind : UsageKind} {rest typed : List Char} (front : List Char)
    (h : startOf? kind rest = some typed) :
    ∃ lead, front ++ rest = lead ++ typed ∧ TypedAfter kind lead typed := by
  cases kind with
  | cssVariable =>
    obtain ⟨gap, name, rfl, rfl, hblanks, hall⟩ := typedVariable?_eq_some.mp h
    refine ⟨front ++ callStart ++ gap, by simp, .call hblanks hall⟩
  | reference =>
    obtain ⟨rfl, hall⟩ := typedAlias?_eq_some.mp h
    exact ⟨front ++ ['{'], by simp, .reference hall⟩

/-- What is typed starts in some ending of the text before the cursor. -/
lemma TypedAfter.exists_start {kind : UsageKind} {lead typed : List Char}
    (h : TypedAfter kind lead typed) :
    ∃ front rest, lead ++ typed = front ++ rest ∧ rest ≠ [] ∧ startOf? kind rest = some typed := by
  cases h with
  | @call front gap name blanks chars =>
    refine ⟨front, callStart ++ gap ++ '-' :: '-' :: name, by simp [callStart], by simp, ?_⟩
    exact typedVariable?_eq_some.mpr ⟨gap, name, rfl, rfl, blanks, chars⟩
  | @reference front name chars =>
    exact ⟨front, '{' :: typed, by simp, by simp, typedAlias?_eq_some.mpr ⟨rfl, chars⟩⟩

/-- The search finds what is typed, for each kind. -/
lemma typedIn_startOf?_eq_some (kind : UsageKind) {before typed : List Char} :
    typedIn (startOf? kind) before = some typed ↔
      ∃ lead, before = lead ++ typed ∧ TypedAfter kind lead typed := by
  constructor
  · intro h
    obtain ⟨front, rest, rfl, hstart⟩ := exists_of_typedIn h
    exact startOf?_eq_some front hstart
  · rintro ⟨lead, rfl, h⟩
    obtain ⟨front, rest, htext, hne, hstart⟩ := h.exists_start
    rw [htext]
    refine typedIn_append hne hstart fun front' rest' typed' heq hstart' => ?_
    obtain ⟨lead', htext', h'⟩ := startOf?_eq_some front' hstart'
    exact (h'.unique h (by rw [← htext', ← heq, htext])).2

/-- What is being typed, if something is. -/
lemma TypedAfter.typingAtEnd?_eq {kind : UsageKind} {lead typed : List Char}
    (h : TypedAfter kind lead typed) (i : Nat) :
    typingAtEnd? i (lead ++ typed) =
      some ⟨kind, String.ofList typed, .onLine i (units lead) (units (lead ++ typed))⟩ := by
  have hfound := (typedIn_startOf?_eq_some kind).mpr ⟨lead, rfl, h⟩
  have hstart : units (lead ++ typed) - units typed = units lead := by
    rw [Text.units_append, Nat.add_sub_cancel]
  rw [typingAtEnd?, ← hstart]
  cases kind with
  | cssVariable =>
    rw [startOf?] at hfound
    simp only [hfound]
  | reference =>
    -- A call is looked for first.
    have hnone : typedIn typedVariable? (lead ++ typed) = none := by
      rw [Option.eq_none_iff_forall_ne_some]
      intro typed' hcall
      obtain ⟨lead', heq, h'⟩ := (typedIn_startOf?_eq_some .cssVariable).mp hcall
      cases (h.unique h' heq).1
    rw [startOf?] at hfound
    simp only [hnone, hfound, Option.map_some]

/-- Completion at the end of a text has something that is typed there. -/
lemma exists_typedAfter {i : Nat} {before : List Char} {c : Typing}
    (h : typingAtEnd? i before = some c) :
    ∃ kind lead typed, before = lead ++ typed ∧ TypedAfter kind lead typed := by
  rw [typingAtEnd?] at h
  simp only at h
  split at h
  · next typed htyped =>
    obtain ⟨lead, hlead⟩ := (typedIn_startOf?_eq_some .cssVariable).mp htyped
    exact ⟨_, lead, typed, hlead⟩
  · obtain ⟨typed, htyped, -⟩ := Option.map_eq_some_iff.mp h
    obtain ⟨lead, hlead⟩ := (typedIn_startOf?_eq_some .reference).mp htyped
    exact ⟨_, lead, typed, hlead⟩

/-! ## What is offered -/

/-- Completion looks at the line up to the cursor only. -/
lemma completion?_of_line {text : String} {p : Position} {line : List Char}
    (h : (Text.lines text.toList)[p.line]? = some line) :
    completion? text p = typingAtEnd? p.line (line.take (Text.charsBefore p.character line)) := by
  simp only [completion?, h]

/-- Where nothing is typed nothing is offered. -/
lemma completions_of_none {text : String} {p : Position} (h : completion? text p = none)
    (r : Registry) : completions r text p = [] := by
  simp only [completions, h]

/-- An offer replaces its range by its label. -/
lemma Offer.get?_textEdit (o : Offer) :
    o.toJson.get? "textEdit" =
      some (.ofFields [("range", o.range.toJson), ("newText", .string o.label)]) := by
  rw [Offer.toJson]
  cases o.token.description <;> cases o.token.deprecated <;>
    simp [Json.Value.ofFields, Json.Value.get?, Json.Fields.ofList, Json.Fields.get?_insert]

/-- Nothing is completed at the end of a text only if nothing is typed there. -/
lemma typingAtEnd?_eq_none {i : Nat} {before : List Char} :
    typingAtEnd? i before = none ↔
      ∀ kind lead typed, before = lead ++ typed → ¬ TypedAfter kind lead typed := by
  constructor
  · rintro hnone kind lead typed rfl h
    rw [h.typingAtEnd?_eq] at hnone
    cases hnone
  · intro hnone
    rw [Option.eq_none_iff_forall_ne_some]
    intro c hc
    obtain ⟨kind, lead, typed, heq, h⟩ := exists_typedAfter hc
    exact hnone kind lead typed heq h

/-- The offers are the tokens whose labels begin with what is typed, in the registry's order. -/
lemma TypedAfter.completions_eq {kind : UsageKind} {lead typed : List Char}
    (h : TypedAfter kind lead typed) {text : String} {p : Position}
    (htyping : completion? text p = typingAtEnd? p.line (lead ++ typed)) (r : Registry) :
    completions r text p =
      (r.toList.filter fun t => typed.isPrefixOf (labelFor kind t).toList).map fun t =>
        ⟨labelFor kind t, t, .onLine p.line (units lead) (units (lead ++ typed))⟩ := by
  rw [completions, htyping, h.typingAtEnd?_eq]
  simp only [Text.startsWith_eq, String.toList_ofList]

/-- Accepting a completion only extends what is typed. The part of a line before a position ends
between two characters, wherever the position is. If no usage is being typed at its end, nothing is
offered. Otherwise the tokens with a label that begins with what is typed are offered, each once and
in the order of the registry, and an offer puts the label in the place of what is typed. The label
is the CSS variable in a call and the dotted path after a brace. -/
theorem completions_extend_typed (r : Registry) (text : String) (p : Position)
    (hsize : bytes text.toList < 0x100000000) :
    ((Text.lines text.toList)[p.line]? = none → completion? text p = none) ∧
    (completion? text p = none → completions r text p = []) ∧
    ∀ line, (Text.lines text.toList)[p.line]? = some line → ∃ before,
      Text.IsBefore line p.character before ∧
      Text.byteOffset p.character 0 0 line = bytes before ∧
      (String.Pos.Raw.mk (bytes before)).IsValid (String.ofList line) ∧
      p.line < 0x100000000 ∧ units line < 0x100000000 ∧
      (completion? text p = none ↔
        ∀ kind lead typed, before = lead ++ typed → ¬ TypedAfter kind lead typed) ∧
      ∀ kind lead typed, before = lead ++ typed → TypedAfter kind lead typed →
        (String.Pos.Raw.mk (bytes lead)).IsValid (String.ofList line) ∧
        ∃ label : Token → String,
          (kind = .cssVariable ∧ label = Token.cssVariable ∨
            kind = .reference ∧ label = Token.dottedPath) ∧
          (completions r text p).map Offer.token =
            r.toList.filter (fun t => typed.isPrefixOf (label t).toList) ∧
          ∀ o ∈ completions r text p,
            o.label = label o.token ∧ typed <+: o.label.toList ∧
            o.range = .onLine p.line (units lead) (units before) ∧
            o.toJson.get? "textEdit" =
              some (.ofFields [("range", o.range.toJson), ("newText", .string o.label)]) := by
  refine ⟨fun hline => by simp only [completion?, hline], fun hnone => completions_of_none hnone r,
    fun line hline => ⟨line.take (Text.charsBefore p.character line), ?_⟩⟩
  have hbefore := Text.isBefore_take p.character line
  have htyping := completion?_of_line hline
  have hoffset := Text.byteOffset_eq p.character 0 0 line
  obtain ⟨hnumber, hunits⟩ := le_bytes_of_getElem? hline
  rw [Nat.zero_add, Nat.sub_zero] at hoffset
  generalize line.take (Text.charsBefore p.character line) = before at *
  refine ⟨hbefore, hoffset, Text.isValid_bytes hbefore.begins, by omega, by omega, ?_, ?_⟩
  · rw [htyping, typingAtEnd?_eq_none]
  · rintro kind lead typed rfl h
    have hoffers := h.completions_eq htyping r
    refine ⟨Text.isValid_bytes ((List.prefix_append lead typed).trans hbefore.begins),
      labelFor kind, ?_, ?_, ?_⟩
    · cases kind with
      | cssVariable => exact .inl ⟨rfl, rfl⟩
      | reference => exact .inr ⟨rfl, rfl⟩
    · rw [hoffers, List.map_map]
      exact List.map_id _
    · intro o ho
      rw [hoffers] at ho
      obtain ⟨t, ht, rfl⟩ := List.mem_map.mp ho
      exact ⟨rfl, List.isPrefixOf_iff_prefix.mp (List.mem_filter.mp ht).2, rfl,
        Offer.get?_textEdit _⟩

/-- A CSS variable that is being typed, and an alias behind a character of two units. -/
def typedText : String :=
  "var( --ds\n😀\x7bco.x"

/-- A token whose labels begin with what is typed. They are no names. -/
def offeredToken : Token :=
  { name := "co-a", path := ["co", "a"], cssPrefix := "ds" }

/-- A token whose labels have it only later. -/
def otherToken : Token :=
  { name := "b-co", path := ["b", "co"] }

/-- The offer of the only token that is offered. -/
lemma offers_eq_singleton {offers : List Offer} {t : Token} {label : Token → String} {range : Range}
    (htoken : offers.map Offer.token = [t])
    (hoffers : ∀ o ∈ offers, o.label = label o.token ∧ o.range = range) :
    offers = [⟨label t, t, range⟩] := by
  obtain ⟨o, rfl, rfl⟩ := List.map_eq_singleton_iff.mp htoken
  obtain ⟨hlabel, hrange⟩ := hoffers o (List.mem_singleton_self o)
  rw [← hlabel, ← hrange]

theorem completions_extend_typed_both :
    bytes typedText.toList < 0x100000000 ∧
    TypedAfter .cssVariable ['v', 'a', 'r', '(', ' '] ['-', '-', 'd', 's'] ∧
    TypedAfter .reference ['😀', '{'] ['c', 'o'] ∧
    completions (.ofList [otherToken, offeredToken]) typedText ⟨0, 9⟩ =
      [⟨"--ds-co-a", offeredToken, .onLine 0 5 9⟩] ∧
    completions (.ofList [otherToken, offeredToken]) typedText ⟨1, 5⟩ =
      [⟨"co.a", offeredToken, .onLine 1 3 5⟩] := by
  have hsize : bytes typedText.toList < 0x100000000 := by decide +kernel
  have hcall : TypedAfter .cssVariable ['v', 'a', 'r', '(', ' '] ['-', '-', 'd', 's'] :=
    @TypedAfter.call [] [' '] ['d', 's'] (List.all_eq_true.mp (by decide))
      (List.all_eq_true.mp (by decide))
  have halias : TypedAfter .reference ['😀', '{'] ['c', 'o'] :=
    @TypedAfter.reference ['😀'] ['c', 'o'] (List.all_eq_true.mp (by decide))
  have htokens : (Registry.ofList [otherToken, offeredToken]).toList = [otherToken, offeredToken] :=
    Registry.toList_ofList_of_nodup (by decide +kernel)
  refine ⟨hsize, hcall, halias, ?_, ?_⟩
  · obtain ⟨before, hbefore, -, -, -, -, -, htyped⟩ :=
      (completions_extend_typed (.ofList [otherToken, offeredToken]) typedText ⟨0, 9⟩ hsize).2.2
        ['v', 'a', 'r', '(', ' ', '-', '-', 'd', 's', '\n'] (by decide +kernel)
    obtain rfl : before = ['v', 'a', 'r', '(', ' '] ++ ['-', '-', 'd', 's'] :=
      hbefore.unique (Text.isBefore_take 9 _)
    obtain ⟨-, label, ⟨-, rfl⟩ | ⟨hkind, -⟩, hoffered, hoffers⟩ := htyped _ _ _ rfl hcall
    · rw [htokens] at hoffered
      exact offers_eq_singleton hoffered fun o ho => ⟨(hoffers o ho).1, (hoffers o ho).2.2.1⟩
    · cases hkind
  · obtain ⟨before, hbefore, -, -, -, -, -, htyped⟩ :=
      (completions_extend_typed (.ofList [otherToken, offeredToken]) typedText ⟨1, 5⟩ hsize).2.2
        ['😀', '{', 'c', 'o', '.', 'x'] (by decide +kernel)
    obtain rfl : before = ['😀', '{'] ++ ['c', 'o'] := hbefore.unique (Text.isBefore_take 5 _)
    obtain ⟨-, label, ⟨hkind, -⟩ | ⟨-, rfl⟩, hoffered, hoffers⟩ := htyped _ _ _ rfl halias
    · cases hkind
    · rw [htokens] at hoffered
      exact offers_eq_singleton hoffered fun o ho => ⟨(hoffers o ho).1, (hoffers o ho).2.2.1⟩

end Editor

end DesignTokens
