import DesignTokens.Editor.Diagnostic
import DesignTokens.Proofs.Registry

/-!
# Looking up a CSS variable

A query is first taken for a name and only then for a CSS variable, and tokens of one name may have
different prefixes. So a token may stand in the way of those that define a variable (`Hides`): one
without a file that has the variable for its name, or the oldest one with the name that the variable
means, if its prefix makes it another variable. There are no other reasons: a variable that some
token defines is found, by a token that defines it exactly if none hides it
(`Valid.exists_find?_variable`). What an editor shows for the variable comes from the token that was
found (`variable_lookup`).
-/

namespace DesignTokens

lemma Token.length_name_lt (t : Token) : t.name.length < t.cssVariable.length := by
  obtain ⟨start, hstart⟩ := t.exists_cssVariable_eq
  have hhyphens : "--".length = 2 := by decide
  rw [hstart, String.length_append, String.length_append, hhyphens]
  omega

/-- No token is named as its CSS variable. -/
lemma Token.cssVariable_ne_name (t : Token) : t.cssVariable ≠ t.name :=
  fun heq => (heq ▸ t.length_name_lt).false

namespace Registry

/-- A token that is found in place of those that define a CSS variable: it has no file and the
variable for its name, or it is the first whose name is the variable with hyphens for points and
without one pair of leading hyphens, and it defines another variable. -/
def Hides (tokens : List Token) (query : String) (t : Token) : Prop :=
  (t ∈ tokens ∧ t.filePath = "" ∧ t.name = query) ∨
    tokens.find? (fun s => s.name = meantName query) = some t ∧ t.cssVariable ≠ query

/-- What hides a CSS variable is no token of it. -/
lemma Hides.cssVariable_ne {tokens : List Token} {query : String} {t : Token}
    (h : Hides tokens query t) : t.cssVariable ≠ query := by
  rcases h with ⟨-, -, rfl⟩ | ⟨-, hne⟩
  · exact t.cssVariable_ne_name
  · exact hne

/-- A CSS variable that a token defines is found: by a token that defines it if none hides it, and
else by one that hides it. -/
lemma Valid.exists_find?_variable {r : Registry} (h : Valid r) {query : String}
    (hdefined : ∃ s ∈ r.toList, s.cssVariable = query) :
    ∃ t ∈ r.toList, r.find? query = some t ∧
      (t.cssVariable = query ∧ (¬ ∃ s, Hides r.toList query s) ∨ Hides r.toList query t) := by
  rw [h.refines.find query]
  cases hexact : r.toList.find? fun t => t.filePath = "" ∧ t.name = query with
  | some t =>
    have hmem := List.mem_of_find?_eq_some hexact
    have hfits := List.find?_some hexact
    rw [decide_eq_true_eq] at hfits
    exact ⟨t, hmem, rfl, .inr (.inl ⟨hmem, hfits⟩)⟩
  | none =>
    -- From here on no token has the variable for its name.
    have hnone : ∀ s ∈ r.toList, ¬ (s.filePath = "" ∧ s.name = query) := by
      simpa [List.find?_eq_none] using hexact
    rw [Option.none_or]
    cases hnamed : r.toList.find? fun t => t.name = meantName query with
    | some t =>
      refine ⟨t, List.mem_of_find?_eq_some hnamed, rfl, ?_⟩
      by_cases heq : t.cssVariable = query
      · refine .inl ⟨heq, ?_⟩
        rintro ⟨s, ⟨hs, hfits⟩ | ⟨hs, hne⟩⟩
        · exact hnone s hs hfits
        · cases hnamed.symm.trans hs
          exact hne heq
      · exact .inr (.inr ⟨hnamed, heq⟩)
    | none =>
      have hsome : (r.toList.find? fun t => t.cssVariable = query).isSome := by
        obtain ⟨s, hs, heq⟩ := hdefined
        exact List.find?_isSome.mpr ⟨s, hs, decide_eq_true heq⟩
      obtain ⟨t, ht⟩ := Option.isSome_iff_exists.mp hsome
      refine ⟨t, List.mem_of_find?_eq_some ht, by rw [Option.none_or, ht], .inl ⟨?_, ?_⟩⟩
      · simpa using List.find?_some ht
      · rintro ⟨s, ⟨hs, hfits⟩ | ⟨hs, -⟩⟩
        · exact hnone s hs hfits
        · cases hnamed.symm.trans hs

end Registry

namespace Editor

open Registry (Command runAll Hides)

/-- What an editor shows at a usage of a CSS variable is that of the token which is found. -/
lemma shown_of_find? {r : Registry} {u : Usage} {t : Token} (hkind : u.kind = .cssVariable)
    (hfind : r.find? u.name = some t) :
    (∀ text p, usageAt? text p = some u →
        hover r text p = some ⟨describe t, u.range⟩ ∧ definition r text p = definitionOf t) ∧
      ofUsage r u = deprecatedToken u t ++ incorrectFallback u t := by
  have hlookup : lookup r u = some t := by rw [lookup, hkind, hfind]
  refine ⟨fun text p husage => ⟨?_, ?_⟩, ?_⟩
  · rw [hover, husage, Option.bind_some, hlookup, Option.map_some]
  · rw [definition, husage, Option.bind_some, hlookup, Option.bind_some]
  · rw [ofUsage, hlookup]

/-- After any commands, a CSS variable that a stored token defines is looked up with a stored token,
whose variable it is exactly if no token hides it; one that has another variable hides it. Hovers,
definitions and diagnostics at the variable are those of that token. -/
theorem variable_lookup (commands : List Command) {query : String}
    (hdefined : ∃ s ∈ (runAll Command.run .empty commands).1.toList, s.cssVariable = query) :
    ∃ t ∈ (runAll Command.run .empty commands).1.toList,
      (runAll Command.run .empty commands).1.find? query = some t ∧
      (t.cssVariable = query ↔ ¬ ∃ s, Hides (runAll Command.run .empty commands).1.toList query s) ∧
      (t.cssVariable ≠ query → Hides (runAll Command.run .empty commands).1.toList query t) ∧
      ∀ u : Usage, u.kind = .cssVariable → u.name = query →
        (∀ text p, usageAt? text p = some u →
          hover (runAll Command.run .empty commands).1 text p = some ⟨describe t, u.range⟩ ∧
          definition (runAll Command.run .empty commands).1 text p = definitionOf t) ∧
        ofUsage (runAll Command.run .empty commands).1 u =
          deprecatedToken u t ++ incorrectFallback u t := by
  have hvalid := (Registry.runAll_spec Registry.valid_empty commands).1
  obtain ⟨t, hmem, hfind, hcases⟩ := hvalid.exists_find?_variable hdefined
  refine ⟨t, hmem, hfind, ?_, ?_, ?_⟩
  · rcases hcases with ⟨heq, hnone⟩ | hhides
    · exact iff_of_true heq hnone
    · exact iff_of_false hhides.cssVariable_ne fun hnone => hnone ⟨t, hhides⟩
  · intro hne
    rcases hcases with ⟨heq, -⟩ | hhides
    · exact absurd heq hne
    · exact hhides
  · rintro u hkind rfl
    exact shown_of_find? hkind hfind

/-- Two files with a token of one name, the first with a prefix for its variables. -/
def prefixedCommands : List Command :=
  [.add { name := "color", value := "red", cssPrefix := "ds", filePath := "ds.json" },
    .add { name := "color", value := "blue", filePath := "app.json" }]

/-- The registry of the two files. -/
def prefixed : Registry :=
  (runAll Command.run .empty prefixedCommands).1

lemma toList_prefixed : prefixed.toList =
    [{ name := "color", value := "red", cssPrefix := "ds", filePath := "ds.json" },
      { name := "color", value := "blue", filePath := "app.json" }] :=
  congrArg Prod.fst (Registry.runAll_spec Registry.valid_empty prefixedCommands).2

lemma exists_defined_prefixed : ∃ s ∈ prefixed.toList, s.cssVariable = "--color" := by
  rw [toList_prefixed]
  exact ⟨_, List.mem_cons_of_mem _ (List.mem_singleton_self _), rfl⟩

theorem variable_lookup_prefixed :
    (∃ s ∈ prefixed.toList, s.cssVariable = "--color") ∧
    ∃ t ∈ prefixed.toList,
      prefixed.find? "--color" = some t ∧
      (t.cssVariable = "--color" ↔ ¬ ∃ s, Hides prefixed.toList "--color" s) ∧
      (t.cssVariable ≠ "--color" → Hides prefixed.toList "--color" t) ∧
      ∀ u : Usage, u.kind = .cssVariable → u.name = "--color" →
        (∀ text p, usageAt? text p = some u →
          hover prefixed text p = some ⟨describe t, u.range⟩ ∧
          definition prefixed text p = definitionOf t) ∧
        ofUsage prefixed u = deprecatedToken u t ++ incorrectFallback u t :=
  ⟨exists_defined_prefixed, variable_lookup prefixedCommands exists_defined_prefixed⟩

/-- The variable `--color` is found in the file with the prefix, where it is not defined, though
another token defines it. -/
theorem prefixed_variable_found_elsewhere :
    (∃ s ∈ prefixed.toList, s.cssVariable = "--color") ∧
      ∃ t, prefixed.find? "--color" = some t ∧ t.cssVariable = "--ds-color" := by
  have hvalid := (Registry.runAll_spec Registry.valid_empty prefixedCommands).1
  have hfind := hvalid.refines.find "--color"
  rw [show (runAll Command.run .empty prefixedCommands).1 = prefixed from rfl, toList_prefixed]
    at hfind
  exact ⟨exists_defined_prefixed, _, hfind, rfl⟩

end Editor

end DesignTokens
