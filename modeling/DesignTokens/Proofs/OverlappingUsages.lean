import DesignTokens.Editor.Lookup
import DesignTokens.Proofs.CallParentheses
import DesignTokens.Proofs.ReferenceLookup
import DesignTokens.Proofs.SettingsRoundTrip
import Mathlib.Data.List.Find

/-!
# Overlapping usages

A usage can begin before another one has ended in two ways only (`Overlaps`): it stands in the
second argument of a call, or it is a call inside the braces of an alias. The usage around a
position is the first in the list, so of nested usages it is the outermost (`usage_at_outermost`),
and one that is inside of another is never found (`nested_usage_hidden`).
-/

namespace DesignTokens

lemma Range.contains_onLine {i a b : Nat} {p : Position} :
    (Range.onLine i a b).contains p = true ↔ p.line = i ∧ a ≤ p.character ∧ p.character ≤ b := by
  simp only [Range.contains, Range.onLine, Bool.and_eq_true, Position.le_iff]
  omega

/-- The registry of tokens with different keys answers as their list does. -/
lemma Registry.refines_ofList {tokens : List Token} (h : (tokens.map Token.key).Nodup) :
    Refines (ofList tokens) tokens := by
  have hrefines := (valid_ofList tokens).refines
  rwa [toList_ofList_of_nodup h] at hrefines

namespace Editor

open Text (units)

/-! ## Where a usage can begin -/

/-- No usage begins with another character. -/
lemma Written.front {kind : UsageKind} {name : String} {fallback : Option String}
    {body after cs : List Char} {c : Char} (h : Written kind name fallback body)
    (heq : body ++ after = c :: cs) : c = '{' ∨ c = 'v' := by
  cases h
  · exact .inl (List.cons.inj heq).1.symm
  · exact .inr (List.cons.inj heq).1.symm
  · exact .inr (List.cons.inj heq).1.symm

lemma Written.behind {kind : UsageKind} {name : String} {fallback : Option String}
    {body after y cs : List Char} {c : Char} (h : Written kind name fallback body)
    (heq : c :: cs = y ++ (body ++ after)) (hc : ¬ (c = '{' ∨ c = 'v')) :
    ∃ x, y = c :: x ∧ cs = x ++ (body ++ after) := by
  cases y with
  | nil => exact absurd (h.front heq.symm) hc
  | cons d x =>
    rw [List.cons_append, List.cons.injEq] at heq
    exact ⟨x, by rw [heq.1], heq.2⟩

lemma Written.of_reference {name : String} {fallback : Option String} {body : List Char}
    (h : Written .reference name fallback body) :
    ∃ chars, body = '{' :: (chars ++ ['}']) ∧ IsAlias chars := by
  cases h with
  | reference isAlias => exact ⟨_, rfl, isAlias⟩

/-- No closing brace stands before the end of the variable of a call. -/
lemma Written.of_call {name : String} {fallback : Option String} {body : List Char}
    (h : Written .cssVariable name fallback body) :
    ∃ head, '}' ∉ head ∧ (body = head ++ [')'] ∧ fallback = none ∨
      ∃ argument, body = head ++ ',' :: argument) := by
  have hblanks : ∀ {gap : List Char}, Blanks gap → '}' ∉ gap := fun hgap hmem =>
    absurd (hgap _ hmem) (by decide)
  have hvariable : ∀ {name : List Char}, IsVariable name → '}' ∉ name := by
    rintro _ ⟨rest, rfl, -, hrest⟩ hmem
    simp only [List.mem_cons, Char.reduceEq, false_or] at hmem
    exact absurd (hrest _ hmem) (by decide)
  have hhead : ∀ {gap name gap' : List Char}, Blanks gap → IsVariable name → Blanks gap' →
      '}' ∉ ['v', 'a', 'r', '('] ++ gap ++ name ++ gap' := by
    intro gap name gap' hgap hname hgap'
    simp [hblanks hgap, hvariable hname, hblanks hgap']
  cases h with
  | call blanks isVariable blanks' =>
    exact ⟨_, hhead blanks isVariable blanks', .inl ⟨rfl, rfl⟩⟩
  | callWith blanks isVariable blanks' =>
    exact ⟨_, hhead blanks isVariable blanks', .inr ⟨_, rfl⟩⟩

/-- A usage that begins with the characters of an alias is a call without fallback, and it ends no
later than they do. -/
lemma Written.in_alias {kind : UsageKind} {name : String} {fallback : Option String}
    {body after chars cs : List Char} (h : Written kind name fallback body)
    (hchars : ∀ c ∈ chars, isAliasChar c = true) (heq : chars ++ '}' :: cs = body ++ after) :
    kind = .cssVariable ∧ fallback = none ∧ body <+: chars := by
  cases kind with
  | reference =>
    obtain ⟨chars', rfl, -⟩ := h.of_reference
    -- An opening brace does not stand in an alias.
    cases chars with
    | nil => simp at heq
    | cons c chars =>
      obtain ⟨rfl, -⟩ := List.cons.inj heq
      exact absurd (hchars '{' List.mem_cons_self) (by decide)
  | cssVariable =>
    obtain ⟨head, hbrace, ⟨rfl, hfallback⟩ | ⟨argument, rfl⟩⟩ := h.of_call
    · exact ⟨rfl, hfallback, prefix_of_notMem heq (by simp [hbrace])⟩
    · -- A comma does not stand in an alias.
      rw [show head ++ ',' :: argument ++ after = (head ++ [',']) ++ (argument ++ after) by simp]
        at heq
      have hend : head ++ [','] <+: chars := prefix_of_notMem heq (by simp [hbrace])
      exact absurd (hchars ',' (hend.subset (by simp))) (by decide)

lemma fallbackOf_ne_none {argument : List Char} {c : Char} (hc : c ∈ argument)
    (hblank : Text.isBlank c = false) : fallbackOf argument ≠ none := by
  have htrim : Text.trimChars argument ≠ [] := by
    intro hnil
    have hall := Text.trimChars_eq_nil.mp hnil c hc
    rw [hblank] at hall
    cases hall
  rw [fallbackOf, if_neg htrim]
  exact Option.some_ne_none _

/-- A usage that begins before the end of an argument begins inside of it, so the argument is not
blank. -/
lemma Written.in_argument {kind : UsageKind} {name : String} {fallback : Option String}
    {body after argument x cs : List Char} (h : Written kind name fallback body)
    (heq : argument ++ ')' :: cs = x ++ (body ++ after)) (hunits : units x ≤ units argument) :
    x <+: argument ∧ fallbackOf argument ≠ none := by
  obtain ⟨y, rfl⟩ := prefix_of_units_le heq.symm hunits
  refine ⟨List.prefix_append x y, ?_⟩
  rw [List.append_assoc, List.append_cancel_left_eq] at heq
  cases y with
  | nil => exact absurd (h.front heq.symm) (by decide)
  | cons c y =>
    have hblank : Text.isBlank c = false := by
      rcases h.front heq.symm with rfl | rfl <;> decide
    exact fallbackOf_ne_none (c := c) (by simp) hblank

/-! ## The two ways to overlap -/

/-- A usage begins in the second argument of a call. -/
def InArgument (text : String) (u v : Usage) : Prop :=
  ∃ i before head x y after,
    (Text.lines text.toList)[i]? = some (before ++ head ++ (',' :: (x ++ y) ++ ')' :: after)) ∧
    u.range = .onLine i (units before) (units (before ++ head ++ (',' :: (x ++ y) ++ [')']))) ∧
    u.fallback = fallbackOf (x ++ y) ∧ v.range.start = ⟨i, units (before ++ head ++ ',' :: x)⟩

/-- How a usage overlaps one that begins before it. -/
inductive Overlaps (text : String) (u v : Usage) : Prop
  | inArgument (kind : u.kind = .cssVariable) (fallback : u.fallback ≠ none)
      (inside : InArgument text u v) (within : v.kind = .cssVariable → v.range.Within u.range)
  | inBraces (kind : u.kind = .reference) (kind' : v.kind = .cssVariable)
      (fallback : v.fallback = none) (within : v.range.Within u.range)

/-- A usage that begins behind the beginning of a call begins behind its head. -/
lemma exists_behind {text : String} {i : Nat} {line before head name rest : List Char} {v : Usage}
    (hline : (Text.lines text.toList)[i]? = some line) (h : Matched line before head name rest)
    (hv : v ∈ usages text) (hsame : v.range.start.line = i)
    (hlt : units before < v.range.start.character) :
    ∃ y body after, rest = y ++ (body ++ after) ∧ Written v.kind v.name v.fallback body ∧
      v.range.start = ⟨i, units (before ++ head ++ y)⟩ := by
  have hmem : v ∈ usagesFrom i 0 0 line := (mem_usagesFrom_iff hline).mpr ⟨hv, hsame⟩
  have hbehind := h.behind hmem (by rwa [Nat.zero_add])
  obtain ⟨before', rest', rfl, body, after, rfl, hwritten, hrange⟩ := exists_atFront hmem
  have hstart : v.range.start = ⟨i, units before'⟩ := by
    rw [hrange, Nat.zero_add]
    rfl
  rw [hstart, Nat.zero_add, ← Text.units_append] at hbehind
  have heq := h.eq_append
  rw [← List.append_assoc before] at heq
  obtain ⟨y, rfl⟩ := prefix_of_units_le heq.symm hbehind
  rw [List.append_assoc (before ++ head), List.append_cancel_left_eq] at heq
  exact ⟨y, body, after, heq.symm, hwritten, hstart⟩

/-- The fallback and the range of a call, by what follows its head. -/
lemma callUsage?_cases {line column : Nat} {head name rest : List Char} {u : Usage}
    (h : callUsage? line column (head ++ rest) name rest = some u) :
    (∃ after, rest = ')' :: after ∧
        u.range = .onLine line column (column + units (head ++ [')']))) ∨
      ∃ argument after, rest = ',' :: (argument ++ ')' :: after) ∧
        u.fallback = fallbackOf argument ∧
        u.range = .onLine line column (column + units (head ++ (',' :: (argument ++ [')'])))) := by
  obtain ⟨⟨fallback, after⟩, hrest, rfl⟩ := Option.map_eq_some_iff.mp h
  rcases callRest?_eq_some hrest with ⟨rfl, -⟩ | ⟨argument, rfl, rfl⟩
  · refine .inl ⟨after, rfl, ?_⟩
    have hbody : head ++ ')' :: after = head ++ [')'] ++ after := by simp
    simp only [hbody, rangeUpTo_append]
  · refine .inr ⟨argument, after, by simp, rfl, ?_⟩
    have hbody : head ++ (',' :: argument ++ ')' :: after) =
        head ++ (',' :: (argument ++ [')'])) ++ after := by simp
    simp only [hbody, rangeUpTo_append]

/-- A usage that begins inside a call begins in its second argument. -/
lemma inArgument_of_overlap {text : String} {u v : Usage} (hu : u ∈ usages text)
    (hv : v ∈ usages text) (hkind : u.kind = .cssVariable)
    (hsame : u.range.start.line = v.range.start.line)
    (hlt : u.range.start.character < v.range.start.character)
    (hin : v.range.start.character < u.range.stop.character) :
    u.fallback ≠ none ∧ InArgument text u v := by
  obtain ⟨i, line, before, head, name, rest, hline, hmatched, hcall⟩ := exists_callUsage? hu hkind
  rw [(atFront_callUsage? (callHead?_append hmatched.isHead) hcall).range_eq] at hsame hlt
  obtain ⟨y, body, after', hplace, hwritten, hstart⟩ :=
    exists_behind hline hmatched hv hsame.symm hlt
  rw [hstart] at hin
  rw [hmatched.eq_append] at hline
  rcases callUsage?_cases hcall with
    ⟨after, rfl, hrange⟩ | ⟨argument, after, rfl, hfallback, hrange⟩
  -- No usage begins with the comma or the parenthesis behind the head.
  all_goals
    obtain ⟨x, rfl, htail⟩ := hwritten.behind hplace (by decide)
    rw [hrange] at hin
    simp only [Range.onLine, Text.units_append, Text.units_cons, Text.units_nil] at hin
  · omega
  · have hunits : units x ≤ units argument := by
      have hwidth : Text.unitWidth ')' = 1 := rfl
      omega
    obtain ⟨⟨z, rfl⟩, hargument⟩ := hwritten.in_argument htail hunits
    refine ⟨hfallback ▸ hargument, i, before, head, x, z, after, by rw [hline]; simp, ?_, hfallback,
      hstart⟩
    rw [hrange]
    simp [Text.units_append]

/-- A usage that begins inside the braces of an alias is a call that ends there too. -/
lemma within_of_overlap {text : String} {u v : Usage} (hu : u ∈ usages text)
    (hv : v ∈ usages text) (hkind : u.kind = .reference)
    (hsame : u.range.start.line = v.range.start.line)
    (hlt : u.range.start.character < v.range.start.character)
    (hin : v.range.start.character < u.range.stop.character) :
    v.kind = .cssVariable ∧ v.fallback = none ∧ v.range.Within u.range := by
  obtain ⟨i, before, body, after, hline, hwritten, hrange⟩ := exists_written hu
  obtain ⟨j, before', body', after', hline', hwritten', hrange'⟩ := exists_written hv
  rw [hrange, hrange'] at hsame hlt hin
  obtain rfl : i = j := hsame
  rw [hline, Option.some.injEq, List.append_assoc, List.append_assoc] at hline'
  rw [hkind] at hwritten
  obtain ⟨chars, rfl, hchars⟩ := hwritten.of_reference
  simp only [Range.onLine] at hlt hin
  -- The other usage begins behind the opening brace and not behind the closing one.
  obtain ⟨m, rfl⟩ := prefix_of_units_le hline' hlt.le
  rw [List.append_assoc, List.append_cancel_left_eq] at hline'
  cases m with
  | nil => simp at hlt
  | cons d x =>
    simp only [List.cons_append, List.append_assoc, List.nil_append, List.cons.injEq] at hline'
    obtain ⟨rfl, heq⟩ := hline'
    have hunits : units x ≤ units chars := by
      have hwidth : Text.unitWidth '}' = 1 := rfl
      simp only [Text.units_append, Text.units_cons, Text.units_nil] at hin
      omega
    obtain ⟨z, rfl⟩ := prefix_of_units_le heq.symm hunits
    rw [List.append_assoc, List.append_cancel_left_eq] at heq
    obtain ⟨hkind', hfallback, hend⟩ :=
      hwritten'.in_alias (fun c hc => hchars.2 c (List.mem_append_right x hc)) heq
    refine ⟨hkind', hfallback, ?_⟩
    have hle := Text.units_le_of_sublist hend.sublist
    rw [hrange, hrange']
    refine ⟨le_onLine.mpr hlt.le, le_onLine.mpr ?_⟩
    simp only [Text.units_append, Text.units_cons] at hle ⊢
    omega

lemma exists_onLine {text : String} {u : Usage} (h : u ∈ usages text) :
    ∃ i a b, u.range = .onLine i a b ∧ a < b := by
  obtain ⟨i, before, body, after, -, hwritten, hrange⟩ := exists_written h
  obtain ⟨c, body', rfl⟩ := List.exists_cons_of_ne_nil hwritten.ne_nil
  have hwidth := Text.unitWidth_pos c
  refine ⟨i, _, _, hrange, ?_⟩
  rw [Text.units_append, Text.units_cons]
  omega

/-- A usage that begins before another one has ended. -/
lemma overlaps {text : String} {u v : Usage} (hu : u ∈ usages text) (hv : v ∈ usages text)
    (hsame : u.range.start.line = v.range.start.line)
    (hlt : u.range.start.character < v.range.start.character)
    (hin : v.range.start.character < u.range.stop.character) : Overlaps text u v := by
  cases hkind : u.kind with
  | reference =>
    obtain ⟨hkind', hfallback, hwithin⟩ := within_of_overlap hu hv hkind hsame hlt hin
    exact .inBraces hkind hkind' hfallback hwithin
  | cssVariable =>
    obtain ⟨hfallback, hinside⟩ := inArgument_of_overlap hu hv hkind hsame hlt hin
    refine .inArgument hkind hfallback hinside fun hkind' => ?_
    obtain ⟨i, a, b, hrange, hab⟩ := exists_onLine hu
    obtain ⟨j, c, d, hrange', hcd⟩ := exists_onLine hv
    have hcases := apart_or_within hu hv hkind hkind' hsame
    rw [hrange, hrange'] at hsame hlt hin hcases ⊢
    obtain rfl : i = j := hsame
    simp only [Range.Apart, Range.Within, Range.onLine, le_onLine] at hlt hin hcases ⊢
    omega

/-! ## The usage around a position -/

lemma usageAt?_eq (text : String) (p : Position) :
    usageAt? text p = (usages text).find? fun u => u.range.contains p := by
  refine List.find?_congr fun u hu => ?_
  obtain ⟨i, a, b, hrange, -⟩ := exists_onLine hu
  cases hcontains : u.range.contains p with
  | false => simp
  | true =>
    rw [hrange] at hcontains ⊢
    obtain ⟨hline, -⟩ := Range.contains_onLine.mp hcontains
    simp [Range.onLine, hline]

/-- The usage around a position begins before all others around it. -/
lemma first_of_usageAt? {text : String} {p : Position} {u : Usage}
    (h : usageAt? text p = some u) :
    u ∈ usages text ∧ u.range.contains p = true ∧
      ∀ v ∈ usages text, v.range.contains p = true →
        v = u ∨ u.range.start.Precedes v.range.start := by
  rw [usageAt?_eq, List.find?_eq_some_iff_append] at h
  obtain ⟨hcontains, front, back, heq, hfront⟩ := h
  have hpairwise := pairwise_usagesInLines 0 (Text.lines text.toList)
  rw [show usagesInLines 0 (Text.lines text.toList) = usages text from rfl, heq,
    List.pairwise_append, List.pairwise_cons] at hpairwise
  rw [heq]
  refine ⟨by simp, hcontains, fun v hv hcontains' => ?_⟩
  rw [List.mem_append, List.mem_cons] at hv
  rcases hv with hv | rfl | hv
  · have hnot := hfront v hv
    simp [hcontains'] at hnot
  · exact .inl rfl
  · exact .inr (hpairwise.2.1.1 v hv)

/-- Two usages around a position touch there or overlap. -/
lemma touch_or_overlaps {text : String} {p : Position} {u v : Usage} (hu : u ∈ usages text)
    (hv : v ∈ usages text) (hcontains : u.range.contains p = true)
    (hcontains' : v.range.contains p = true) (hbefore : u.range.start.Precedes v.range.start) :
    u.range.stop = p ∧ v.range.start = p ∨ Overlaps text u v := by
  obtain ⟨i, a, b, hrange, -⟩ := exists_onLine hu
  obtain ⟨j, c, d, hrange', -⟩ := exists_onLine hv
  have hoverlaps := overlaps hu hv
  rw [hrange] at hcontains hbefore hoverlaps ⊢
  rw [hrange'] at hcontains' hbefore hoverlaps ⊢
  obtain ⟨rfl, ha, hb⟩ := Range.contains_onLine.mp hcontains
  obtain ⟨rfl, hc, hd⟩ := Range.contains_onLine.mp hcontains'
  have hac : a < c := by
    rcases hbefore with hlt | ⟨-, hlt⟩
    · exact absurd hlt (Nat.lt_irrefl _)
    · exact hlt
  by_cases hin : c < b
  · exact .inr (hoverlaps rfl hac hin)
  · left
    obtain rfl : b = p.character := by omega
    obtain rfl : c = p.character := by omega
    exact ⟨rfl, rfl⟩

/-- There is a usage around a position exactly if the range of one contains it. It is inside of no
other one, and every other usage around the position begins behind its beginning: where it ends, or
in its second argument or its braces. What an editor shows there is that of its token. -/
theorem usage_at_outermost (text : String) (p : Position) :
    ((usageAt? text p).isSome ↔ ∃ u ∈ usages text, u.range.contains p = true) ∧
    ∀ u, usageAt? text p = some u →
      u ∈ usages text ∧ u.range.contains p = true ∧
      (∀ v ∈ usages text, u.range.Within v.range → v = u) ∧
      (∀ v ∈ usages text, v.range.contains p = true → v = u ∨
        u.range.start.Precedes v.range.start ∧
          (u.range.stop = p ∧ v.range.start = p ∨ Overlaps text u v)) ∧
      ∀ r, hover r text p = (lookup r u).map (fun t => ⟨describe t, u.range⟩) ∧
        definition r text p = (lookup r u).bind definitionOf := by
  refine ⟨by rw [usageAt?_eq, List.find?_isSome], fun u h => ?_⟩
  obtain ⟨hu, hcontains, hfirst⟩ := first_of_usageAt? h
  refine ⟨hu, hcontains, fun v hv hwithin => ?_, fun v hv hcontains' => ?_, fun r => ⟨?_, ?_⟩⟩
  · have hcontains' : v.range.contains p = true := by
      simp only [Range.contains, Range.Within, Bool.and_eq_true, Position.le_iff]
        at hcontains hwithin ⊢
      omega
    rcases hfirst v hv hcontains' with heq | hbefore
    · exact heq
    · have hstart := Position.le_iff.mp hwithin.1
      rw [Position.Precedes] at hbefore
      omega
  · rcases hfirst v hv hcontains' with heq | hbefore
    · exact .inl heq
    · exact .inr ⟨hbefore, touch_or_overlaps hu hv hcontains hcontains' hbefore⟩
  · rw [hover, h]
    rfl
  · rw [definition, h]
    rfl

/-- A call with a call for its fallback. -/
def fallbackText : String :=
  "var(--a, var(--b))"

/-- The call, with the range of all the text. -/
def outerUsage : Usage :=
  ⟨.cssVariable, "--a", some "var(--b)", .onLine 0 0 18⟩

/-- The call in the fallback. -/
def innerUsage : Usage :=
  ⟨.cssVariable, "--b", none, .onLine 0 9 17⟩

theorem usage_at_outermost_fallback :
    usageAt? fallbackText ⟨0, 14⟩ = some outerUsage ∧
    outerUsage ∈ usages fallbackText ∧ outerUsage.range.contains ⟨0, 14⟩ = true ∧
    (∀ v ∈ usages fallbackText, outerUsage.range.Within v.range → v = outerUsage) ∧
    (∀ v ∈ usages fallbackText, v.range.contains ⟨0, 14⟩ = true → v = outerUsage ∨
      outerUsage.range.start.Precedes v.range.start ∧
        (outerUsage.range.stop = ⟨0, 14⟩ ∧ v.range.start = ⟨0, 14⟩ ∨
          Overlaps fallbackText outerUsage v)) ∧
    ∀ r, hover r fallbackText ⟨0, 14⟩ =
        (lookup r outerUsage).map (fun t => ⟨describe t, outerUsage.range⟩) ∧
      definition r fallbackText ⟨0, 14⟩ = (lookup r outerUsage).bind definitionOf := by
  have hat : usageAt? fallbackText ⟨0, 14⟩ = some outerUsage := by decide +kernel
  exact ⟨hat, (usage_at_outermost fallbackText ⟨0, 14⟩).2 outerUsage hat⟩

/-- The token of the variable in the fallback. -/
def fallbackToken : Token :=
  { name := "b", value := "4px", filePath := "tokens.json", definitionUri := "file:///tokens.json" }

lemma find?_fallbackToken :
    (Registry.ofList [fallbackToken]).find? "--a" = none ∧
      (Registry.ofList [fallbackToken]).find? "--b" = some fallbackToken := by
  have hkeys : ([fallbackToken].map Token.key).Nodup := List.nodup_singleton _
  have hfind := (Registry.refines_ofList hkeys).find
  exact ⟨by rw [hfind]; rfl, by rw [hfind]; rfl⟩

/-- On the variable in the fallback the usage found is the call around it, of which the other one is
a proper part. So nothing is shown there for a token that is known, as the other is not. -/
theorem nested_usage_hidden :
    usages fallbackText = [outerUsage, innerUsage] ∧
    innerUsage.range.contains ⟨0, 14⟩ = true ∧ innerUsage.range.Within outerUsage.range ∧
    innerUsage.range ≠ outerUsage.range ∧ usageAt? fallbackText ⟨0, 14⟩ = some outerUsage ∧
    lookup (.ofList [fallbackToken]) innerUsage = some fallbackToken ∧
    hover (.ofList [fallbackToken]) fallbackText ⟨0, 14⟩ = none ∧
    definition (.ofList [fallbackToken]) fallbackText ⟨0, 14⟩ = none := by
  have hat : usageAt? fallbackText ⟨0, 14⟩ = some outerUsage := by decide +kernel
  have hlookup : lookup (.ofList [fallbackToken]) outerUsage = none := find?_fallbackToken.1
  refine ⟨by decide +kernel, by decide +kernel, ⟨by decide +kernel, by decide +kernel⟩,
    by decide +kernel, hat, find?_fallbackToken.2, ?_, ?_⟩
  · rw [hover, hat, Option.bind_some, hlookup, Option.map_none]
  · rw [definition, hat, Option.bind_some, hlookup, Option.bind_none]

end Editor

end DesignTokens
