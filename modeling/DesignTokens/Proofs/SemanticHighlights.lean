import DesignTokens.Editor.SemanticToken
import DesignTokens.Proofs.OverlappingUsages

/-!
# What semantic tokens stand for

The numbers of a document's semantic tokens are relative. `decodeHighlights` reads them back as an
editor does: it adds up lines, and columns within a line. The usages come in order (`InOrder`), so
every difference is the distance to a place before it, no subtraction goes below zero
(`encodeUsages?`), and the editor gets the usages of known tokens (`semantic_tokens_decoded`). Two
of them overlap only as usages do (`highlights_overlap_as_usages`).
-/

namespace DesignTokens.Editor

open Text (units bytes)

/-! ## Reading semantic tokens -/

/-- A highlighted stretch where it stands in a document. -/
structure Highlight where
  line : Nat
  start : Nat
  length : Nat
  /-- The number of the kind. -/
  kind : Nat
  /-- The modifiers, one bit for each. -/
  modifiers : Nat
deriving DecidableEq, Repr

/-- The highlights that a list of numbers stands for, five for each, the first relative to a
position. None if some numbers are left over. -/
def decodeHighlights : (before : Position) → List Nat → Option (List Highlight)
  | _, [] => some []
  | before, deltaLine :: deltaStart :: length :: kind :: modifiers :: data =>
    let line := before.line + deltaLine
    let start := if deltaLine = 0 then before.character + deltaStart else deltaStart
    (decodeHighlights ⟨line, start⟩ data).map (⟨line, start, length, kind, modifiers⟩ :: ·)
  | _, _ => none

/-- The usages of known tokens in a document, with their tokens. -/
def knownUsages (r : Registry) (us : List Usage) : List (Usage × Token) :=
  us.filterMap fun u => (lookup r u).map fun t => (u, t)

/-- The highlight of a usage: its line, its first column, its units, its kind and whether its token
is deprecated. -/
def highlight (known : Usage × Token) : Highlight where
  line := known.1.range.start.line
  start := known.1.range.start.character
  length := known.1.range.stop.character - known.1.range.start.character
  kind := kindNumber known.1.kind
  modifiers := if known.2.deprecated then 1 else 0

/-! ## Subtractions that may fail -/

/-- The difference of two numbers, none if it is below zero. -/
def minus? (a b : Nat) : Option Nat :=
  if b ≤ a then some (a - b) else none

lemma minus?_eq_some {a b : Nat} (h : b ≤ a) : minus? a b = some (a - b) :=
  if_pos h

/-- A usage and its token as a semantic token after a position, none if a difference is below
zero. -/
def semanticToken? (before : Position) (u : Usage) (t : Token) : Option SemanticToken :=
  (minus? u.range.start.line before.line).bind fun deltaLine =>
    (if deltaLine = 0 then minus? u.range.start.character before.character
      else some u.range.start.character).bind fun deltaStart =>
        (minus? u.range.stop.character u.range.start.character).map fun length =>
          ⟨deltaLine, deltaStart, length, u.kind, t.deprecated⟩

/-- The usages of known tokens as semantic tokens, none if a difference is below zero. -/
def encodeUsages? (r : Registry) : (before : Position) → List Usage → Option (List SemanticToken)
  | _, [] => some []
  | before, u :: us =>
    match lookup r u with
    | none => encodeUsages? r before us
    | some t =>
      (semanticToken? before u t).bind fun s => (encodeUsages? r u.range.start us).map (s :: ·)

/-! ## Usages in order -/

/-- Usages in the order of their beginnings, none of which begins before a position. -/
structure InOrder (before : Position) (us : List Usage) : Prop where
  behind : ∀ u ∈ us, before.le u.range.start = true
  onward : ∀ u ∈ us, u.range.start.character ≤ u.range.stop.character
  sorted : us.Pairwise fun u v => u.range.start.le v.range.start = true

lemma InOrder.skip {before : Position} {u : Usage} {us : List Usage}
    (h : InOrder before (u :: us)) : InOrder before us :=
  ⟨fun v hv => h.behind v (List.mem_cons_of_mem u hv),
    fun v hv => h.onward v (List.mem_cons_of_mem u hv), (List.pairwise_cons.mp h.sorted).2⟩

/-- Usages in order are in order from the first one on. -/
lemma InOrder.next {before : Position} {u : Usage} {us : List Usage}
    (h : InOrder before (u :: us)) : InOrder u.range.start us :=
  { h.skip with behind := (List.pairwise_cons.mp h.sorted).1 }

/-- The usages of a text are in order from its start on. -/
lemma inOrder_usages (text : String) : InOrder {} (usages text) := by
  refine ⟨fun u _ => ?_, fun u hu => ?_, ?_⟩
  · rw [Position.le_iff]
    have hzero : ({} : Position).line = 0 ∧ ({} : Position).character = 0 := ⟨rfl, rfl⟩
    omega
  · obtain ⟨i, a, b, hrange, hab⟩ := exists_onLine hu
    rw [hrange]
    exact hab.le
  · refine (pairwise_usagesInLines 0 (Text.lines text.toList)).imp fun {u v} hbefore => ?_
    rw [Position.Precedes] at hbefore
    rw [Position.le_iff]
    omega

/-! ## One semantic token -/

/-- A usage further on that does not run backwards has a semantic token. -/
lemma semanticToken?_eq_some {before : Position} {u : Usage} (t : Token)
    (hbehind : before.le u.range.start = true)
    (honward : u.range.start.character ≤ u.range.stop.character) :
    semanticToken? before u t = some (semanticToken before u t) := by
  have hle := Position.le_iff.mp hbehind
  have hline : before.line ≤ u.range.start.line := by omega
  rw [semanticToken?, minus?_eq_some hline, minus?_eq_some honward]
  by_cases hsame : u.range.start.line = before.line
  · have hcolumn : before.character ≤ u.range.start.character := by omega
    have hzero : u.range.start.line - before.line = 0 := by omega
    rw [Option.bind_some, if_pos hzero, minus?_eq_some hcolumn, semanticToken]
    simp only [Option.bind_some, Option.map_some, if_pos hsame]
  · have hpos : u.range.start.line - before.line ≠ 0 := by omega
    rw [Option.bind_some, if_neg hpos, semanticToken]
    simp only [Option.bind_some, Option.map_some, if_neg hsame]

/-- Columns are relative on the line of the usage before, and absolute on others. -/
lemma deltaStart_semanticToken (before : Position) (u : Usage) (t : Token) :
    (semanticToken before u t).deltaStart =
      if u.range.start.line = before.line then u.range.start.character - before.character
      else u.range.start.character :=
  rfl

/-- A semantic token is read back as the highlight of its usage. -/
lemma decodeHighlights_numbers {before : Position} {u : Usage} (t : Token)
    (hbehind : before.le u.range.start = true) (data : List Nat) :
    decodeHighlights before ((semanticToken before u t).numbers ++ data) =
      (decodeHighlights u.range.start data).map (highlight (u, t) :: ·) := by
  have hle := Position.le_iff.mp hbehind
  have hline : before.line + (semanticToken before u t).deltaLine = u.range.start.line := by
    change before.line + (u.range.start.line - before.line) = u.range.start.line
    omega
  have hstart : (if (semanticToken before u t).deltaLine = 0 then
        before.character + (semanticToken before u t).deltaStart
      else (semanticToken before u t).deltaStart) = u.range.start.character := by
    rw [deltaStart_semanticToken]
    split_ifs <;> omega
  rw [SemanticToken.numbers]
  simp only [List.cons_append, List.nil_append, decodeHighlights, hline, hstart]
  rfl

/-! ## All semantic tokens -/

/-- The semantic tokens of usages in order are read back as the highlights of the known ones. -/
lemma decodeHighlights_encodeUsages (r : Registry) {before : Position} {us : List Usage}
    (h : InOrder before us) :
    decodeHighlights before ((encodeUsages r before us).flatMap SemanticToken.numbers) =
      some ((knownUsages r us).map highlight) := by
  induction us generalizing before with
  | nil => rfl
  | cons u us ih =>
    rw [encodeUsages, knownUsages]
    cases hlookup : lookup r u with
    | none =>
      rw [List.filterMap_cons_none (by rw [hlookup]; rfl)]
      exact ih h.skip
    | some t =>
      rw [List.filterMap_cons_some (b := (u, t)) (by rw [hlookup]; rfl)]
      simp only [List.flatMap_cons]
      rw [decodeHighlights_numbers t (h.behind u List.mem_cons_self), ih h.next]
      rfl

/-- No difference of usages in order is below zero. -/
lemma encodeUsages?_eq_some (r : Registry) {before : Position} {us : List Usage}
    (h : InOrder before us) : encodeUsages? r before us = some (encodeUsages r before us) := by
  induction us generalizing before with
  | nil => rfl
  | cons u us ih =>
    rw [encodeUsages?, encodeUsages]
    cases lookup r u with
    | none => exact ih h.skip
    | some t =>
      have htoken := semanticToken?_eq_some t (h.behind u List.mem_cons_self)
        (h.onward u List.mem_cons_self)
      simp only [htoken, ih h.next, Option.bind_some, Option.map_some]

/-- Every semantic token is that of a usage. -/
lemma exists_of_mem_encodeUsages {r : Registry} {before : Position} {us : List Usage}
    {s : SemanticToken} (h : s ∈ encodeUsages r before us) :
    ∃ u ∈ us, ∃ before' t, s = semanticToken before' u t := by
  induction us generalizing before with
  | nil =>
    rw [encodeUsages] at h
    cases h
  | cons u us ih =>
    rw [encodeUsages] at h
    cases hlookup : lookup r u with
    | none =>
      rw [hlookup] at h
      obtain ⟨v, hv, hs⟩ := ih h
      exact ⟨v, List.mem_cons_of_mem u hv, hs⟩
    | some t =>
      rw [hlookup] at h
      rcases List.mem_cons.mp h with rfl | h
      · exact ⟨u, List.mem_cons_self, before, t, rfl⟩
      · obtain ⟨v, hv, hs⟩ := ih h
        exact ⟨v, List.mem_cons_of_mem u hv, hs⟩

/-- The numbers of a semantic token are no larger than those of the range of its usage. -/
lemma le_of_mem_numbers {before : Position} {u : Usage} {t : Token} {n : Nat}
    (h : n ∈ (semanticToken before u t).numbers) :
    n ≤ u.range.start.line ∨ n ≤ u.range.start.character ∨ n ≤ u.range.stop.character ∨ n ≤ 1 := by
  simp only [SemanticToken.numbers, List.mem_cons, List.not_mem_nil, or_false] at h
  rcases h with rfl | rfl | rfl | rfl | rfl
  · exact .inl (Nat.sub_le _ _)
  · rw [deltaStart_semanticToken]
    split_ifs <;> omega
  · exact .inr (.inr (.inl (Nat.sub_le _ _)))
  · cases (semanticToken before u t).kind <;> simp [kindNumber]
  · split_ifs <;> simp

/-- A usage stands in its line where its highlight says, with as many units. -/
lemma exists_highlighted {text : String} {u : Usage} (hu : u ∈ usages text) (t : Token) :
    ∃ before body after,
      (Text.lines text.toList)[(highlight (u, t)).line]? = some (before ++ body ++ after) ∧
      Written u.kind u.name u.fallback body ∧ (highlight (u, t)).start = units before ∧
      (highlight (u, t)).length = units body := by
  obtain ⟨i, before, body, after, hline, hwritten, hrange⟩ := exists_written hu
  refine ⟨before, body, after, ?_, hwritten, ?_, ?_⟩ <;> rw [highlight, hrange]
  · exact hline
  · rfl
  · change units (before ++ body) - units before = units body
    rw [Text.units_append, Nat.add_sub_cancel_left]

/-- The semantic tokens of a document are read back as the usages of known tokens, in order, each
with its line, its first column, its units, its kind and whether its token is deprecated. No
subtraction goes below zero, and all numbers have 32 bits if the document has less than `2 ^ 32`
bytes. -/
theorem semantic_tokens_decoded (r : Registry) (text : String)
    (hsize : bytes text.toList < 0x100000000) :
    decodeHighlights {} ((semanticTokens r text).flatMap SemanticToken.numbers) =
      some ((knownUsages r (usages text)).map highlight) ∧
    (∀ known ∈ knownUsages r (usages text), ∃ before body after,
      (Text.lines text.toList)[(highlight known).line]? = some (before ++ body ++ after) ∧
      Written known.1.kind known.1.name known.1.fallback body ∧
      (highlight known).start = units before ∧ (highlight known).length = units body) ∧
    encodeUsages? r {} (usages text) = some (semanticTokens r text) ∧
    (∀ u ∈ usages text, u.range.start.line < 0x100000000 ∧
      u.range.start.character < 0x100000000 ∧ u.range.stop.character < 0x100000000) ∧
    ∀ n ∈ (semanticTokens r text).flatMap SemanticToken.numbers, n < 0x100000000 := by
  have horder := inOrder_usages text
  have hbound : ∀ u ∈ usages text, u.range.start.line < 0x100000000 ∧
      u.range.start.character < 0x100000000 ∧ u.range.stop.character < 0x100000000 := by
    intro u hu
    obtain ⟨i, before, body, after, hline, -, hrange⟩ := exists_written hu
    obtain ⟨hi, hunits⟩ := le_bytes_of_getElem? hline
    rw [hrange]
    simp only [Range.onLine, Text.units_append] at hunits ⊢
    omega
  refine ⟨decodeHighlights_encodeUsages r horder, ?_, encodeUsages?_eq_some r horder, hbound, ?_⟩
  · intro known hknown
    obtain ⟨u, hu, hpair⟩ := List.mem_filterMap.mp hknown
    obtain ⟨t, -, rfl⟩ := Option.map_eq_some_iff.mp hpair
    exact exists_highlighted hu t
  · intro n hn
    obtain ⟨s, hs, hn⟩ := List.mem_flatMap.mp hn
    obtain ⟨u, hu, before, t, rfl⟩ := exists_of_mem_encodeUsages hs
    have hle := le_of_mem_numbers hn
    have hu := hbound u hu
    omega

/-- A token that is deprecated. -/
def deprecatedSample : Token :=
  { name := "a", value := "1px", deprecated := true, filePath := "tokens.json" }

/-- A registry of two tokens. -/
def sampleRegistry : Registry :=
  .ofList [deprecatedSample, fallbackToken]

/-- What the names in the sample text mean. -/
lemma find?_sampleRegistry :
    sampleRegistry.find? "--a" = some deprecatedSample ∧
      sampleRegistry.find? "--b" = some fallbackToken ∧ sampleRegistry.find? "--gone" = none ∧
      sampleRegistry.find? (Reference.dottedToName "a") = some deprecatedSample := by
  have hkeys : ([deprecatedSample, fallbackToken].map Token.key).Nodup := by decide +kernel
  have hfind : ∀ query, sampleRegistry.find? query = _ := (Registry.refines_ofList hkeys).find
  exact ⟨by rw [hfind]; rfl, by rw [hfind]; rfl, by rw [hfind]; rfl, by rw [hfind]; rfl⟩

/-- An unknown variable, a call in a call, and on the next line an alias behind a character of two
units. -/
def highlightedText : String :=
  "var(--gone) var(--a, var(--b))\n😀\x7ba\x7d"

/-- The usages in the text, but for the unknown one. -/
def highlightedUsages : List (Usage × Token) :=
  [(⟨.cssVariable, "--a", some "var(--b)", .onLine 0 12 30⟩, deprecatedSample),
    (⟨.cssVariable, "--b", none, .onLine 0 21 29⟩, fallbackToken),
    (⟨.reference, "a", none, .onLine 1 2 5⟩, deprecatedSample)]

lemma knownUsages_highlightedText :
    knownUsages sampleRegistry (usages highlightedText) = highlightedUsages := by
  have husages : usages highlightedText =
      [⟨.cssVariable, "--gone", none, .onLine 0 0 11⟩,
        ⟨.cssVariable, "--a", some "var(--b)", .onLine 0 12 30⟩,
        ⟨.cssVariable, "--b", none, .onLine 0 21 29⟩,
        ⟨.reference, "a", none, .onLine 1 2 5⟩] := by
    decide +kernel
  obtain ⟨ha, hb, hgone, hdotted⟩ := find?_sampleRegistry
  rw [husages]
  simp only [knownUsages, List.filterMap_cons, List.filterMap_nil, lookup, ha, hb, hgone, hdotted,
    Option.map_some, Option.map_none]
  rfl

theorem semantic_tokens_decoded_mixed :
    bytes highlightedText.toList < 0x100000000 ∧
    decodeHighlights {}
        ((semanticTokens sampleRegistry highlightedText).flatMap SemanticToken.numbers) =
      some [⟨0, 12, 18, 0, 1⟩, ⟨0, 21, 8, 0, 0⟩, ⟨1, 2, 3, 1, 1⟩] ∧
    (∀ known ∈ highlightedUsages, ∃ before body after,
      (Text.lines highlightedText.toList)[(highlight known).line]? =
        some (before ++ body ++ after) ∧
      Written known.1.kind known.1.name known.1.fallback body ∧
      (highlight known).start = units before ∧ (highlight known).length = units body) ∧
    encodeUsages? sampleRegistry {} (usages highlightedText) =
      some (semanticTokens sampleRegistry highlightedText) ∧
    (∀ u ∈ usages highlightedText, u.range.start.line < 0x100000000 ∧
      u.range.start.character < 0x100000000 ∧ u.range.stop.character < 0x100000000) ∧
    ∀ n ∈ (semanticTokens sampleRegistry highlightedText).flatMap SemanticToken.numbers,
      n < 0x100000000 := by
  have hsize : bytes highlightedText.toList < 0x100000000 := by decide +kernel
  have hdecoded := semantic_tokens_decoded sampleRegistry highlightedText hsize
  rw [knownUsages_highlightedText] at hdecoded
  exact ⟨hsize, hdecoded⟩

/-! ## Overlapping highlights -/

/-- Usages in the order of their beginnings: on one line the first ends before the second begins, or
they overlap. -/
lemma pairwise_overlaps (text : String) :
    (usages text).Pairwise fun u v => u.range.start.line = v.range.start.line →
      u.range.start.character < v.range.start.character ∧
        (u.range.stop.character ≤ v.range.start.character ∨ Overlaps text u v) := by
  have hpairwise : (usages text).Pairwise fun u v => u.range.start.Precedes v.range.start :=
    pairwise_usagesInLines 0 (Text.lines text.toList)
  refine hpairwise.imp_of_mem fun {u v} hu hv hbefore hsame => ?_
  have hlt : u.range.start.character < v.range.start.character := by
    rw [Position.Precedes] at hbefore
    omega
  refine ⟨hlt, ?_⟩
  by_cases hin : v.range.start.character < u.range.stop.character
  · exact .inr (overlaps hu hv hsame hlt hin)
  · exact .inl (Nat.le_of_not_lt hin)

/-- Of two highlights on one line the first begins before the second, and it also ends before it
unless the second one's usage overlaps the first one's: it stands in the second argument of a call,
or it is a call in the braces of an alias. -/
theorem highlights_overlap_as_usages (r : Registry) (text : String) :
    decodeHighlights {} ((semanticTokens r text).flatMap SemanticToken.numbers) =
      some ((knownUsages r (usages text)).map highlight) ∧
    (knownUsages r (usages text)).Pairwise fun a b => (highlight a).line = (highlight b).line →
      (highlight a).start < (highlight b).start ∧
        ((highlight a).start + (highlight a).length ≤ (highlight b).start ∨
          Overlaps text a.1 b.1) := by
  refine ⟨decodeHighlights_encodeUsages r (inOrder_usages text), ?_⟩
  refine (pairwise_overlaps text).filterMap _ fun u v hpair k hk l hl hsame => ?_
  obtain ⟨t, -, rfl⟩ := Option.map_eq_some_iff.mp hk
  obtain ⟨t', -, rfl⟩ := Option.map_eq_some_iff.mp hl
  obtain ⟨hlt, hends⟩ := hpair hsame
  refine ⟨hlt, hends.imp_left fun hle => ?_⟩
  change u.range.start.character + (u.range.stop.character - u.range.start.character) ≤
    v.range.start.character
  omega

theorem highlights_overlap_as_usages_mixed :
    decodeHighlights {}
        ((semanticTokens sampleRegistry highlightedText).flatMap SemanticToken.numbers) =
      some [⟨0, 12, 18, 0, 1⟩, ⟨0, 21, 8, 0, 0⟩, ⟨1, 2, 3, 1, 1⟩] ∧
    highlightedUsages.Pairwise fun a b => (highlight a).line = (highlight b).line →
      (highlight a).start < (highlight b).start ∧
        ((highlight a).start + (highlight a).length ≤ (highlight b).start ∨
          Overlaps highlightedText a.1 b.1) := by
  have hoverlap := highlights_overlap_as_usages sampleRegistry highlightedText
  rw [knownUsages_highlightedText] at hoverlap
  exact hoverlap

/-- The highlight of a call and that of the call in its fallback overlap, one right behind the other
in the list and on one line. -/
theorem nested_highlights_overlap :
    ∃ a b : Highlight,
      decodeHighlights {}
        ((semanticTokens sampleRegistry fallbackText).flatMap SemanticToken.numbers) = some [a, b] ∧
      a.line = b.line ∧ ¬ a.start + a.length ≤ b.start := by
  have husages : usages fallbackText = [outerUsage, innerUsage] := by decide +kernel
  have hknown : knownUsages sampleRegistry (usages fallbackText) =
      [(outerUsage, deprecatedSample), (innerUsage, fallbackToken)] := by
    have houter : lookup sampleRegistry outerUsage = some deprecatedSample :=
      find?_sampleRegistry.1
    have hinner : lookup sampleRegistry innerUsage = some fallbackToken :=
      find?_sampleRegistry.2.1
    rw [husages]
    simp only [knownUsages, List.filterMap_cons, List.filterMap_nil, houter, hinner,
      Option.map_some]
  have hdecoded := decodeHighlights_encodeUsages sampleRegistry (inOrder_usages fallbackText)
  rw [hknown] at hdecoded
  exact ⟨_, _, hdecoded, rfl, by decide⟩

end DesignTokens.Editor
