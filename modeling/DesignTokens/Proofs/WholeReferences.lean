import DesignTokens.Proofs.ReferenceSpelling
import Mathlib.Data.List.TakeWhile

/-!
# References that are the whole value

A reference in braces is followed if the value has no other and, blanks aside, starts with an
opening and ends with a closing brace. These need not be the braces of the reference: a pair of
braces with nothing between them is no reference, nor is a closing brace alone. So there are two
kinds of values that are followed (`wholePath?_cases`): those that are one reference and nothing
else (`IsWhole`), and those with such a text around it (`IsFramed`). All others that hold a
reference stay as they are.
-/

namespace DesignTokens

/-! ## Blanks around a text -/

namespace Text

/-- Trimming takes blanks from both ends and nothing else. -/
lemma exists_blanks (cs : List Char) :
    ∃ front back, cs = front ++ (trimChars cs ++ back) ∧ (∀ c ∈ front, isBlank c = true) ∧
      ∀ c ∈ back, isBlank c = true := by
  refine ⟨cs.takeWhile isBlank, ((trimStart cs).reverse.takeWhile isBlank).reverse, ?_, ?_, ?_⟩
  · have hback : trimChars cs ++ ((trimStart cs).reverse.takeWhile isBlank).reverse =
        trimStart cs := by
      rw [trimChars, trimEnd, ← List.reverse_append, List.takeWhile_append_dropWhile,
        List.reverse_reverse]
    rw [hback, trimStart, List.takeWhile_append_dropWhile]
  · exact fun c hc => List.mem_takeWhile_imp hc
  · exact fun c hc => List.mem_takeWhile_imp (List.mem_reverse.mp hc)

/-- A brace is no blank. -/
lemma notMem_of_blank {cs : List Char} (h : ∀ c ∈ cs, isBlank c = true) : '{' ∉ cs :=
  fun hmem => absurd (h _ hmem) (by decide)

end Text

namespace Reference

/-! ## Texts without a path in braces -/

/-- A text in which an opening brace stands only right before a closing one. -/
inductive Ungrouped : List Char → Prop
  | nil : Ungrouped []
  | other {c : Char} {cs : List Char} (hc : c ≠ '{') (h : Ungrouped cs) : Ungrouped (c :: cs)
  | pair {cs : List Char} (h : Ungrouped cs) : Ungrouped ('{' :: '}' :: cs)

lemma ungrouped_of_notMem {cs : List Char} (h : '{' ∉ cs) : Ungrouped cs := by
  induction cs with
  | nil => exact .nil
  | cons c cs ih =>
    rw [List.mem_cons, not_or] at h
    exact .other (Ne.symm h.1) (ih h.2)

/-- Such a text has no paths in braces, whatever follows it. -/
lemma Ungrouped.braceGroups_append {cs : List Char} (h : Ungrouped cs) (rest : List Char) :
    braceGroups none (cs ++ rest) = braceGroups none rest := by
  induction h with
  | nil => rfl
  | other hc _ ih => rw [List.cons_append, braceGroups, if_neg hc, ih]
  | pair _ ih =>
    rw [List.cons_append, List.cons_append, braceGroups, if_pos rfl, braceGroups]
    simpa using ih

lemma braceGroups_unclosed {cs : List Char} (h : '}' ∉ cs) (group : List Char) :
    braceGroups (some group) cs = [] := by
  induction cs generalizing group with
  | nil => rfl
  | cons c cs ih =>
    rw [List.mem_cons, not_or] at h
    rw [braceGroups, if_pos (Ne.symm h.1), ih h.2]

/-- The first path in braces of a text. -/
lemma braceGroups_group {l q : List Char} (hl : Ungrouped l) (hne : q ≠ []) (hq : '}' ∉ q)
    (rest : List Char) :
    braceGroups none (l ++ '{' :: (q ++ '}' :: rest)) = q :: braceGroups none rest := by
  rw [hl.braceGroups_append, braceGroups, if_pos rfl, braceGroups_some hq, List.reverse_nil,
    List.nil_append, if_neg hne, List.singleton_append]

/-- The kinds of texts, by the first path in braces. -/
inductive Shaped : List Char → Prop
  | ungrouped {cs : List Char} (h : Ungrouped cs) : Shaped cs
  /-- The last opening brace is never closed. -/
  | unclosed {l tail : List Char} (hl : Ungrouped l) (htail : '}' ∉ tail) :
      Shaped (l ++ '{' :: tail)
  | group {l q : List Char} (hl : Ungrouped l) (hne : q ≠ []) (hq : '}' ∉ q) (rest : List Char) :
      Shaped (l ++ '{' :: (q ++ '}' :: rest))

/-- What stands before a text without changing what is ungrouped does not change its kind. -/
lemma Shaped.after (front : List Char) {cs : List Char}
    (hfront : ∀ {l}, Ungrouped l → Ungrouped (front ++ l)) (h : Shaped cs) :
    Shaped (front ++ cs) := by
  cases h with
  | ungrouped h => exact .ungrouped (hfront h)
  | unclosed hl htail =>
    rw [← List.append_assoc]
    exact .unclosed (hfront hl) htail
  | group hl hne hq rest =>
    rw [← List.append_assoc]
    exact .group (hfront hl) hne hq rest

lemma shaped (cs : List Char) : Shaped cs := by
  -- By the length, since a pair of braces takes two characters.
  induction hn : cs.length using Nat.strong_induction_on generalizing cs with
  | _ n ih =>
    cases cs with
    | nil => exact .ungrouped .nil
    | cons c cs =>
      rw [List.length_cons] at hn
      by_cases hc : c = '{'
      · subst hc
        by_cases hclosed : '}' ∈ cs
        · obtain ⟨q, rest, rfl, hq⟩ := List.eq_append_cons_of_mem hclosed
          by_cases hne : q = []
          · subst hne
            rw [List.nil_append, List.length_cons] at hn
            exact (ih rest.length (by omega) rest rfl).after ['{', '}'] .pair
          · exact .group .nil hne hq rest
        · exact .unclosed .nil hclosed
      · exact (ih cs.length (by omega) cs rfl).after [c] (.other hc)

/-! ## The scan of a text in parts -/

/-- The scan of a text gives some paths and leaves a state for what follows. -/
lemma braceGroups_append (inside : Option (List Char)) (cs : List Char) :
    ∃ groups inside', ∀ rest,
      braceGroups inside (cs ++ rest) = groups ++ braceGroups inside' rest := by
  induction cs generalizing inside with
  | nil => exact ⟨[], inside, fun _ => rfl⟩
  | cons c cs ih =>
    -- Only a closing brace gives a path, and only if something stands before it.
    cases inside with
    | none =>
      by_cases hc : c = '{'
      · obtain ⟨groups, inside', h⟩ := ih (some [])
        exact ⟨groups, inside', fun rest => by rw [List.cons_append, braceGroups, if_pos hc, h]⟩
      · obtain ⟨groups, inside', h⟩ := ih none
        exact ⟨groups, inside', fun rest => by rw [List.cons_append, braceGroups, if_neg hc, h]⟩
    | some group =>
      by_cases hc : c = '}'
      · obtain ⟨groups, inside', h⟩ := ih none
        refine ⟨(if group.isEmpty then [] else [group.reverse]) ++ groups, inside', fun rest => ?_⟩
        rw [List.cons_append, braceGroups, if_neg (not_not.mpr hc), h]
        split_ifs <;> simp
      · obtain ⟨groups, inside', h⟩ := ih (some (c :: group))
        exact ⟨groups, inside', fun rest => by rw [List.cons_append, braceGroups, if_pos hc, h]⟩

/-- After a closing brace the scan starts anew. -/
lemma braceGroups_closing (inside : Option (List Char)) (cs : List Char) :
    ∃ groups, ∀ rest, braceGroups inside (cs ++ '}' :: rest) = groups ++ braceGroups none rest := by
  obtain ⟨groups, inside', h⟩ := braceGroups_append inside cs
  cases inside' with
  | none => exact ⟨groups, fun rest => by rw [h, braceGroups, if_neg (by decide)]⟩
  | some group =>
    refine ⟨groups ++ if group.isEmpty then [] else [group.reverse], fun rest => ?_⟩
    rw [h, braceGroups, if_neg (by decide)]
    split_ifs <;> simp

/-- A path in braces is found, or one that begins before it. -/
lemma braceGroups_ne_nil (inside : Option (List Char)) (l : List Char) {q : List Char}
    (hne : q ≠ []) (hq : '}' ∉ q) (rest : List Char) :
    ∃ groups, groups ≠ [] ∧
      braceGroups inside (l ++ '{' :: (q ++ '}' :: rest)) = groups ++ braceGroups none rest := by
  obtain ⟨groups, inside', h⟩ := braceGroups_append inside l
  cases inside' with
  | none =>
    refine ⟨groups ++ [q], by simp, ?_⟩
    rw [h, braceGroups, if_pos rfl, braceGroups_some hq]
    simp [hne]
  | some group =>
    refine ⟨groups ++ [('{' :: group).reverse ++ q], by simp, ?_⟩
    rw [h, braceGroups, if_pos (by decide), braceGroups_some hq]
    simp

/-! ## Values that are followed -/

lemma Ungrouped.braceGroups_eq {cs : List Char} (h : Ungrouped cs) : braceGroups none cs = [] := by
  have happend := h.braceGroups_append []
  rwa [List.append_nil] at happend

/-- A text that ends with a closing brace and has one path in braces. -/
lemma braceGroups_eq_singleton {body q : List Char} (hlast : body.getLast? = some '}') :
    braceGroups none body = [q] ↔
      ∃ l r, body = l ++ '{' :: (q ++ '}' :: r) ∧ q ≠ [] ∧ '}' ∉ q ∧ Ungrouped l ∧ Ungrouped r := by
  constructor
  · intro hgroups
    cases shaped body with
    | ungrouped h =>
      rw [h.braceGroups_eq] at hgroups
      cases hgroups
    | unclosed hl htail =>
      rw [hl.braceGroups_append, braceGroups, if_pos rfl, braceGroups_unclosed htail] at hgroups
      cases hgroups
    | group hl hne hq rest =>
      rw [braceGroups_group hl hne hq, List.cons.injEq] at hgroups
      obtain ⟨rfl, hrest⟩ := hgroups
      refine ⟨_, rest, rfl, hne, hq, hl, ?_⟩
      cases shaped rest with
      | ungrouped h => exact h
      | @unclosed l' tail _ htail =>
        -- Then the text would not end with a closing brace.
        rw [← List.cons_append, ← List.append_assoc, ← List.cons_append, ← List.append_assoc,
          List.getLast?_append_of_ne_nil _ (List.cons_ne_nil _ _)] at hlast
        rcases List.mem_cons.mp (List.mem_of_getLast? hlast) with hbrace | hmem
        · exact absurd hbrace (by decide)
        · exact absurd hmem htail
      | group hl hne hq rest =>
        rw [braceGroups_group hl hne hq] at hrest
        cases hrest
  · rintro ⟨l, r, rfl, hne, hq, hl, hr⟩
    rw [braceGroups_group hl hne hq, hr.braceGroups_eq]

/-- Blanks around a text that ends with a closing brace make no difference. -/
lemma braceGroups_trimChars {cs : List Char} (hlast : (Text.trimChars cs).getLast? = some '}') :
    braceGroups none (Text.trimChars cs) = braceGroups none cs := by
  obtain ⟨front, back, hcs, hfront, hback⟩ := Text.exists_blanks cs
  obtain ⟨inner, hinner⟩ := List.getLast?_eq_some_iff.mp hlast
  -- The scan of the text is at rest at its last brace, so what follows is scanned for itself.
  obtain ⟨groups, hgroups⟩ := braceGroups_closing none inner
  have hbody := hgroups []
  have hall := hgroups back
  rw [braceGroups_eq_nil (Text.notMem_of_blank hback)] at hall
  nth_rewrite 2 [hcs]
  rw [(ungrouped_of_notMem (Text.notMem_of_blank hfront)).braceGroups_append, hinner,
    List.append_assoc, List.singleton_append, hall, hbody]
  rfl

lemma wholePath?_eq_some {value path : String} :
    wholePath? value = some path ↔
      (Text.trimChars value.toList).head? = some '{' ∧
      (Text.trimChars value.toList).getLast? = some '}' ∧
      ∃ q, braceGroups none (Text.trimChars value.toList) = [q] ∧
        path = String.ofList (Text.trimChars q) := by
  unfold wholePath?
  constructor
  · intro h
    split at h
    · next path' hpath =>
      simp only [Option.ite_none_right_eq_some, Option.some.injEq] at h
      obtain ⟨⟨hhead, hlast⟩, rfl⟩ := h
      obtain ⟨q, hq, rfl⟩ := List.map_eq_singleton_iff.mp hpath
      exact ⟨hhead, hlast, q, (braceGroups_trimChars hlast).trans hq, rfl⟩
    · cases h
  · rintro ⟨hhead, hlast, q, hq, rfl⟩
    rw [braceGroups_trimChars hlast] at hq
    have hpath : curlyPaths value = [String.ofList (Text.trimChars q)] := by
      rw [curlyPaths, hq, List.map_singleton]
    rw [hpath]
    exact if_pos ⟨hhead, hlast⟩

/-- What may stand before a reference that is followed: nothing, or a text that holds none and
starts with an opening brace. -/
def Opens (l : String) : Prop :=
  l = "" ∨ Ungrouped l.toList ∧ l.toList.head? = some '{'

/-- What may stand behind a reference that is followed: nothing, or a text that holds none and ends
with a closing brace. -/
def Closes (r : String) : Prop :=
  r = "" ∨ Ungrouped r.toList ∧ r.toList.getLast? = some '}'

lemma opens_iff {l : String} (rest : List Char) :
    Opens l ↔ Ungrouped l.toList ∧ (l.toList ++ '{' :: rest).head? = some '{' := by
  rw [Opens, ← String.toList_eq_nil_iff]
  cases l.toList with
  | nil => simp [Ungrouped.nil]
  | cons c cs => simp

lemma closes_iff {r : String} (front : List Char) :
    Closes r ↔ Ungrouped r.toList ∧ (front ++ '}' :: r.toList).getLast? = some '}' := by
  rw [Closes, ← String.toList_eq_nil_iff, List.getLast?_append_of_ne_nil _ (List.cons_ne_nil _ _)]
  cases r.toList with
  | nil => simp [Ungrouped.nil]
  | cons c cs => simp [List.getLast?_cons_cons]

/-- The value is a reference and nothing else but blanks. -/
def IsWhole (value path : String) : Prop :=
  ∃ q, q ≠ "" ∧ '}' ∉ q.toList ∧ Text.trim value = braced q ∧ path = Text.trim q

/-- The value has a text around its reference, but starts and ends with braces. -/
def IsFramed (value path : String) : Prop :=
  ∃ l q r, (l ≠ "" ∨ r ≠ "") ∧ q ≠ "" ∧ '}' ∉ q.toList ∧ Text.trim value = l ++ braced q ++ r ∧
    path = Text.trim q ∧ Opens l ∧ Closes r

/-- The values that are followed. -/
lemma wholePath?_eq_some_iff {value path : String} :
    wholePath? value = some path ↔
      ∃ l q r, q ≠ "" ∧ '}' ∉ q.toList ∧ Text.trim value = l ++ braced q ++ r ∧
        path = Text.trim q ∧ Opens l ∧ Closes r := by
  -- The trimmed value, in characters.
  have hparts : ∀ l q r : String, Text.trim value = l ++ braced q ++ r ↔
      Text.trimChars value.toList = l.toList ++ '{' :: (q.toList ++ '}' :: r.toList) := by
    intro l q r
    rw [← String.toList_inj]
    simp [Text.trim, toList_braced]
  rw [wholePath?_eq_some]
  constructor
  · rintro ⟨hhead, hlast, q, hq, rfl⟩
    obtain ⟨l, r, hbody, hne, hclosing, hl, hr⟩ := (braceGroups_eq_singleton hlast).mp hq
    rw [hbody] at hhead hlast
    rw [← List.cons_append, ← List.append_assoc] at hlast
    refine ⟨.ofList l, .ofList q, .ofList r, by simpa using hne, by simpa using hclosing,
      (hparts _ _ _).mpr (by simpa using hbody), by simp [Text.trim], ?_, ?_⟩
    · rw [opens_iff, String.toList_ofList]
      exact ⟨hl, hhead⟩
    · rw [closes_iff, String.toList_ofList]
      exact ⟨hr, hlast⟩
  · rintro ⟨l, q, r, hne, hclosing, htrim, rfl, hopens, hcloses⟩
    rw [hparts] at htrim
    obtain ⟨hl, hhead⟩ := (opens_iff (q.toList ++ '}' :: r.toList)).mp hopens
    obtain ⟨hr, hlast⟩ := (closes_iff (l.toList ++ '{' :: q.toList)).mp hcloses
    rw [List.append_assoc, List.cons_append, ← htrim] at hlast
    rw [← htrim] at hhead
    refine ⟨hhead, hlast, q.toList, ?_, rfl⟩
    rw [braceGroups_eq_singleton hlast]
    exact ⟨_, _, htrim, by simpa using hne, hclosing, hl, hr⟩

lemma wholePath?_cases {value path : String} :
    wholePath? value = some path ↔ IsWhole value path ∨ IsFramed value path := by
  rw [wholePath?_eq_some_iff]
  constructor
  · rintro ⟨l, q, r, hne, hclosing, htrim, hpath, hopens, hcloses⟩
    by_cases houter : l = "" ∧ r = ""
    · obtain ⟨rfl, rfl⟩ := houter
      rw [String.empty_append, String.append_empty] at htrim
      exact .inl ⟨q, hne, hclosing, htrim, hpath⟩
    · rw [not_and_or] at houter
      exact .inr ⟨l, q, r, houter, hne, hclosing, htrim, hpath, hopens, hcloses⟩
  · rintro (⟨q, hne, hclosing, htrim, hpath⟩ |
      ⟨l, q, r, -, hne, hclosing, htrim, hpath, hopens, hcloses⟩)
    · exact ⟨"", q, "", hne, hclosing, by simpa using htrim, hpath, .inl rfl, .inl rfl⟩
    · exact ⟨l, q, r, hne, hclosing, htrim, hpath, hopens, hcloses⟩

/-! ## Values that stay as they are -/

/-- A value that holds a reference has a path in braces. -/
lemma curlyPaths_ne_nil {l q r : String} (hne : q ≠ "") (hclosing : '}' ∉ q.toList) :
    curlyPaths (l ++ braced q ++ r) ≠ [] := by
  obtain ⟨groups, hgroups, heq⟩ :=
    braceGroups_ne_nil none l.toList (by simpa using hne) hclosing r.toList
  have hchars : (l ++ braced q ++ r).toList = l.toList ++ '{' :: (q.toList ++ '}' :: r.toList) := by
    simp [toList_braced]
  rw [curlyPaths, hchars, heq]
  simp [hgroups]

/-- Two references are two paths in braces, so neither is followed. -/
lemma wholePath?_eq_none_of_two {l q m q' r : String} (hne : q ≠ "") (hclosing : '}' ∉ q.toList)
    (hne' : q' ≠ "") (hclosing' : '}' ∉ q'.toList) :
    wholePath? (l ++ braced q ++ m ++ braced q' ++ r) = none := by
  obtain ⟨groups, hgroups, heq⟩ := braceGroups_ne_nil none l.toList (by simpa using hne) hclosing
    (m.toList ++ '{' :: (q'.toList ++ '}' :: r.toList))
  obtain ⟨groups', hgroups', heq'⟩ :=
    braceGroups_ne_nil none m.toList (by simpa using hne') hclosing' r.toList
  have hchars : (l ++ braced q ++ m ++ braced q' ++ r).toList = l.toList ++
      '{' :: (q.toList ++ '}' :: (m.toList ++ '{' :: (q'.toList ++ '}' :: r.toList))) := by
    simp [toList_braced]
  rw [Option.eq_none_iff_forall_ne_some]
  intro path hpath
  -- A value that is followed has one path, and here each reference adds one.
  have hlength := congrArg List.length (Resolution.curlyPaths_of_wholePath? hpath)
  rw [curlyPaths, hchars, heq, heq', List.length_map, List.length_append, List.length_append,
    List.length_singleton] at hlength
  have hpos := List.length_pos_of_ne_nil hgroups
  have hpos' := List.length_pos_of_ne_nil hgroups'
  omega

end Reference

namespace Resolution

open Reference

/-- A reference that is not followed is part of a text. -/
lemma resolveToken_literal {t : Token} (hraw : t.rawValue = none) (hres : t.isResolved = false)
    (hcurly : curlyPaths t.value ≠ []) (hwhole : wholePath? t.value = none)
    (find : String → Option Token) (version : Version) :
    resolveToken t find version = .ok (t.markResolved (.string t.value)) := by
  have hlink : link? version t = none := by
    simp [link?, hraw, hwhole, hcurly]
  have hown : t.ownValue = .string t.value := by simp [Token.ownValue, hraw]
  simp [resolveToken, hres, resolvedValue_eq, hlink, hown]

/-- The references in braces that are followed are those that are all of a value, blanks aside, and
those in a value that starts and ends with other braces. Every other value with a reference in
braces, and every value with two of them, is resolved to its own text, whatever the tokens are that
it refers to. -/
theorem whole_or_framed_followed (value : String) :
    (∀ path, wholePath? value = some path ↔ IsWhole value path ∨ IsFramed value path) ∧
    ∀ t : Token, t.value = value → t.rawValue = none → t.isResolved = false →
      ((∃ l q r, q ≠ "" ∧ '}' ∉ q.toList ∧ value = l ++ braced q ++ r) ∧
          (∀ path, ¬ IsWhole value path ∧ ¬ IsFramed value path) ∨
        ∃ l q m q' r, q ≠ "" ∧ '}' ∉ q.toList ∧ q' ≠ "" ∧ '}' ∉ q'.toList ∧
          value = l ++ braced q ++ m ++ braced q' ++ r) →
      ∀ find version, resolveToken t find version = .ok (t.markResolved (.string value)) := by
  refine ⟨fun path => wholePath?_cases, ?_⟩
  rintro t rfl hraw hres (⟨⟨l, q, r, hne, hclosing, hvalue⟩, hneither⟩ |
    ⟨l, q, m, q', r, hne, hclosing, hne', hclosing', hvalue⟩)
  · have hwhole : wholePath? t.value = none := by
      rw [Option.eq_none_iff_forall_ne_some]
      exact fun path hpath => (wholePath?_cases.mp hpath).elim (hneither path).1 (hneither path).2
    exact resolveToken_literal hraw hres (hvalue ▸ curlyPaths_ne_nil hne hclosing) hwhole
  · have hcurly : curlyPaths t.value ≠ [] := by
      rw [hvalue]
      exact curlyPaths_ne_nil hne' hclosing'
    exact resolveToken_literal hraw hres hcurly
      (hvalue ▸ wholePath?_eq_none_of_two hne hclosing hne' hclosing')

/-- A reference behind other text. -/
def borderText : String := "2px solid \x7ba\x7d"

theorem whole_or_framed_followed_border :
    (∃ l q r, q ≠ "" ∧ '}' ∉ q.toList ∧ borderText = l ++ braced q ++ r) ∧
      (∀ path, ¬ IsWhole borderText path ∧ ¬ IsFramed borderText path) ∧
      ∀ find version, resolveToken { name := "border", value := borderText } find version =
        .ok (Token.markResolved { name := "border", value := borderText }
          (.string borderText)) := by
  obtain ⟨hfollowed, hliteral⟩ := whole_or_framed_followed borderText
  have hholds : ∃ l q r, q ≠ "" ∧ '}' ∉ q.toList ∧ borderText = l ++ braced q ++ r :=
    ⟨"2px solid ", "a", "", by decide, by decide, by decide⟩
  have hnone : wholePath? borderText = none := by decide
  have hneither : ∀ path, ¬ IsWhole borderText path ∧ ¬ IsFramed borderText path := by
    intro path
    rw [← not_or, ← hfollowed, hnone]
    exact Option.some_ne_none path ∘ Eq.symm
  exact ⟨hholds, hneither, hliteral { name := "border", value := borderText } rfl rfl rfl
    (.inl ⟨hholds, hneither⟩)⟩

/-- A whole reference has one closing brace. -/
lemma count_closing_of_isWhole {value path : String} (h : IsWhole value path) :
    (Text.trim value).toList.count '}' = 1 := by
  obtain ⟨q, -, hclosing, htrim, -⟩ := h
  rw [htrim, toList_braced, List.count_cons_of_ne (by decide), List.count_append,
    List.count_eq_zero.mpr hclosing]
  rfl

/-- The same text behind a pair of braces. -/
def framedText : String := "\x7b\x7d 2px solid \x7ba\x7d"

/-- The reference is not the whole value, and still it is followed, so that the token is resolved to
the value of another one and the rest of its text is lost. -/
theorem framed_reference_followed :
    wholePath? framedText = some "a" ∧ (∀ path, ¬ IsWhole framedText path) ∧
      (strict [{ name := "a", value := "1" }, { name := "border", value := framedText }]
        .draft).1.map Token.displayValue = ["1", "1"] := by
  refine ⟨by decide, fun path h => ?_, by decide +kernel⟩
  have hcount := count_closing_of_isWhole h
  revert hcount
  decide

end Resolution

end DesignTokens
