import DesignTokens.Proofs.UsageRanges
import Mathlib.Data.List.Count
import Mathlib.Data.List.TakeWhile

/-!
# The parentheses of calls

The scan for the end of a call keeps a depth. On every part of the argument that it reads through,
the depth is what the part opens less what it closes (`toClosing?_append`), so it stops at the
parenthesis that matches the one of the call (`toClosing?_eq_some_iff`). The heads of the calls of a
line are found from left to right, each behind the one before (`Matched`), and the calls among the
usages are those of the closed heads (`exists_matched_of_mem`, `Matched.mem_usagesFrom`). Of two
calls one is inside of the other, or they are apart (`Spans.apart_or_within`).
-/

namespace DesignTokens

lemma Position.le_iff {a b : Position} :
    a.le b = true ↔ a.line < b.line ∨ a.line = b.line ∧ a.character ≤ b.character := by
  simp [Position.le]

/-- Whether no unit lies in both ranges. -/
def Range.Apart (a b : Range) : Prop :=
  a.stop.le b.start = true ∨ b.stop.le a.start = true

lemma Range.Apart.symm {a b : Range} (h : a.Apart b) : b.Apart a :=
  Or.symm h

/-- Whether a range lies in another. -/
def Range.Within (a b : Range) : Prop :=
  b.start.le a.start = true ∧ a.stop.le b.stop = true

namespace Editor

open Text (units)

/-! ## Balanced texts -/

/-- How many parentheses a text opens, less those that it closes. -/
def level (cs : List Char) : Int :=
  cs.count '(' - cs.count ')'

@[simp] lemma level_nil : level [] = 0 := rfl

@[simp] lemma level_append (a b : List Char) : level (a ++ b) = level a + level b := by
  simp only [level, List.count_append]
  omega

@[simp] lemma level_opening : level ['('] = 1 := rfl

@[simp] lemma level_closing : level [')'] = -1 := rfl

lemma level_cons (c : Char) (cs : List Char) : level (c :: cs) = level [c] + level cs :=
  level_append [c] cs

/-- Without parentheses the level stays. -/
lemma level_of_notMem {cs : List Char} (hopen : '(' ∉ cs) (hclose : ')' ∉ cs) : level cs = 0 := by
  rw [level, List.count_eq_zero_of_not_mem hopen, List.count_eq_zero_of_not_mem hclose]
  rfl

/-- Every parenthesis of the text is matched inside of it. -/
structure Balanced (cs : List Char) : Prop where
  level_eq : level cs = 0
  nonneg : ∀ p, p <+: cs → 0 ≤ level p

/-- A text without parentheses is balanced. -/
lemma balanced_of_notMem {cs : List Char} (hopen : '(' ∉ cs) (hclose : ')' ∉ cs) :
    Balanced cs := by
  refine ⟨level_of_notMem hopen hclose, fun p hp => ?_⟩
  have hlevel : level p = 0 :=
    level_of_notMem (fun hc => hopen (hp.subset hc)) fun hc => hclose (hp.subset hc)
  omega

/-- Balanced texts one after the other are balanced. -/
lemma Balanced.append {a b : List Char} (ha : Balanced a) (hb : Balanced b) :
    Balanced (a ++ b) := by
  refine ⟨by rw [level_append, ha.level_eq, hb.level_eq]; rfl, fun p hp => ?_⟩
  rcases List.prefix_or_prefix_of_prefix hp (List.prefix_append a b) with hle | ⟨q, rfl⟩
  · exact ha.nonneg p hle
  · have hq := hb.nonneg q ((List.prefix_append_right_inj a).mp hp)
    rw [level_append, ha.level_eq]
    omega

/-- What is opened inside of a balanced text is closed there too. -/
lemma Balanced.closed_within {x y inner after rest : List Char} (h : Balanced (x ++ '(' :: y))
    (hinner : Balanced inner) (heq : y ++ rest = inner ++ ')' :: after) :
    ∃ z, y = inner ++ ')' :: z := by
  -- Otherwise `y` is read before the matching parenthesis, and closes one more than it opens.
  have hy : ¬ y <+: inner := by
    intro hle
    have hlevel := h.level_eq
    have hx := h.nonneg x (List.prefix_append _ _)
    have hy := hinner.nonneg y hle
    rw [level_append, level_cons, level_opening] at hlevel
    omega
  rcases List.append_eq_append_iff.mp heq with ⟨c, rfl, -⟩ | ⟨c, rfl, hc⟩
  · exact absurd (List.prefix_append _ _) hy
  · cases c with
    | nil => exact absurd (by simp) hy
    | cons d z =>
      rw [List.cons_append, List.cons.injEq] at hc
      exact ⟨z, by rw [hc.1]⟩

/-! ## The scan for the end of a call -/

/-- With nothing open, the next closing parenthesis ends the call. -/
lemma toClosing?_zero (cs : List Char) : toClosing? 0 (')' :: cs) = some ([], cs) := rfl

/-- A step of the scan that does not end it changes the depth as the character says. -/
lemma toClosing?_cons {depth : Nat} {c : Char} (cs : List Char) (h : c = ')' → depth ≠ 0) :
    ∃ depth' : Nat, (depth' : Int) = depth + level [c] ∧
      toClosing? depth (c :: cs) =
        (toClosing? depth' cs).map fun found => (c :: found.1, found.2) := by
  by_cases hclose : c = ')'
  · obtain ⟨d, rfl⟩ := Nat.exists_eq_succ_of_ne_zero (h hclose)
    subst hclose
    exact ⟨d, by rw [level_closing]; omega, rfl⟩
  · by_cases hopen : c = '('
    · subst hopen
      exact ⟨depth + 1, rfl, rfl⟩
    · refine ⟨depth, ?_, ?_⟩
      · rw [level_of_notMem (by simpa using Ne.symm hopen) (by simpa using Ne.symm hclose)]
        omega
      · rw [toClosing?.eq_def]
        simp only [if_neg hclose, if_neg hopen]

/-- The scan has read a part without a parenthesis that ends it: it goes on behind the part, at the
depth that the part has. -/
lemma toClosing?_append {depth : Nat} {read : List Char} (rest : List Char)
    (h : ∀ p, p ++ [')'] <+: read → (depth : Int) + level p ≠ 0) :
    ∃ depth' : Nat, (depth' : Int) = depth + level read ∧
      toClosing? depth (read ++ rest) =
        (toClosing? depth' rest).map fun found => (read ++ found.1, found.2) := by
  induction read generalizing depth with
  | nil => exact ⟨depth, by simp, by simp⟩
  | cons c read ih =>
    have hstep : c = ')' → depth ≠ 0 := by
      rintro rfl rfl
      exact h [] ⟨read, rfl⟩ (by simp)
    obtain ⟨depth₁, hdepth₁, heq₁⟩ := toClosing?_cons (read ++ rest) hstep
    have hread : ∀ p, p ++ [')'] <+: read → (depth₁ : Int) + level p ≠ 0 := by
      intro p hp
      have hcons := h (c :: p) (List.cons_prefix_cons.mpr ⟨rfl, hp⟩)
      rw [level_cons] at hcons
      omega
    obtain ⟨depth₂, hdepth₂, heq₂⟩ := ih hread
    refine ⟨depth₂, by rw [level_cons]; omega, ?_⟩
    rw [List.cons_append, heq₁, heq₂, Option.map_map]
    rfl

/-- What stands before the end of a call closes nothing that it did not open. -/
lemma level_of_toClosing? {depth : Nat} {cs inside rest : List Char}
    (h : toClosing? depth cs = some (inside, rest)) :
    (depth : Int) + level inside = 0 ∧ ∀ p, p <+: inside → 0 ≤ (depth : Int) + level p := by
  induction cs generalizing depth inside with
  | nil =>
    rw [toClosing?] at h
    cases h
  | cons c cs ih =>
    by_cases hend : c = ')' ∧ depth = 0
    · obtain ⟨rfl, rfl⟩ := hend
      rw [toClosing?_zero] at h
      cases h
      refine ⟨rfl, fun p hp => ?_⟩
      obtain rfl := List.prefix_nil.mp hp
      simp
    · obtain ⟨depth', hdepth', heq⟩ := toClosing?_cons cs fun hc hd => hend ⟨hc, hd⟩
      rw [heq] at h
      obtain ⟨⟨inside', _⟩, hcs, hpair⟩ := Option.map_eq_some_iff.mp h
      obtain ⟨hinside, rfl⟩ := Prod.mk.inj hpair
      obtain rfl : inside = c :: inside' := hinside.symm
      obtain ⟨hlevel, hnonneg⟩ := ih hcs
      refine ⟨by rw [level_cons]; omega, fun p hp => ?_⟩
      cases p with
      | nil => simp
      | cons d p =>
        obtain ⟨rfl, htail⟩ := List.cons_prefix_cons.mp hp
        have hread := hnonneg p htail
        rw [level_cons]
        omega

/-- The scan ends at the parenthesis that matches the one before it. -/
lemma toClosing?_eq_some_iff {cs inside rest : List Char} :
    toClosing? 0 cs = some (inside, rest) ↔ cs = inside ++ ')' :: rest ∧ Balanced inside := by
  constructor
  · intro h
    obtain ⟨hlevel, hnonneg⟩ := level_of_toClosing? h
    exact ⟨toClosing?_eq_some h, by simpa using hlevel, fun p hp => by simpa using hnonneg p hp⟩
  · rintro ⟨rfl, hbalanced⟩
    have hread : ∀ p, p ++ [')'] <+: inside → ((0 : Nat) : Int) + level p ≠ 0 := by
      intro p hp
      have hnonneg := hbalanced.nonneg _ hp
      rw [level_append, level_closing] at hnonneg
      omega
    obtain ⟨depth, hdepth, heq⟩ := toClosing?_append (')' :: rest) hread
    rw [hbalanced.level_eq] at hdepth
    obtain rfl : depth = 0 := by omega
    rw [heq, toClosing?_zero]
    simp

/-! ## The heads of calls -/

/-- No character of a variable's name is a blank. -/
lemma isBlank_of_isVariableChar {c : Char} (h : isVariableChar c = true) :
    Text.isBlank c = false := by
  have hnat : c.toNat = c.val.toNat := rfl
  have hrange : 45 ≤ c.toNat ∧ c.toNat ≤ 122 := by
    delta isVariableChar Char.isAlphanum Char.isAlpha Char.isUpper Char.isLower Char.isDigit at h
    simp only [Bool.or_eq_true, Bool.and_eq_true, decide_eq_true_eq, ge_iff_le,
      UInt32.le_iff_toNat_le] at h
    rcases h with (h | rfl) | rfl
    · simp at h
      omega
    · decide
    · decide
  simp only [Text.isBlank]
  grind

/-- The head of a call: its start and its variable with the blanks around it, as far as they
reach. What follows is `rest`. -/
inductive IsHead : (head name rest : List Char) → Prop
  | intro {gap name gap' rest : List Char} (blanks : Blanks gap) (isVariable : IsVariable name)
      (blanks' : Blanks gap') (blankless : ∀ c ∈ rest.head?, Text.isBlank c = false)
      (ended : gap' = [] → ∀ c ∈ rest.head?, isVariableChar c = false) :
      IsHead (callStart ++ gap ++ name ++ gap') name rest

/-- Whether a text begins with the head of a call. -/
def BeginsWithHead (cs : List Char) : Prop :=
  ∃ head name rest, cs = head ++ rest ∧ IsHead head name rest

lemma IsHead.ne_nil {head name rest : List Char} (h : IsHead head name rest) : head ≠ [] := by
  cases h
  simp [callStart]

/-- Where a part ends for which a test holds. -/
lemma span_append {p : Char → Bool} {a b : List Char} (ha : ∀ c ∈ a, p c = true)
    (hb : ∀ c ∈ b.head?, p c = false) :
    (a ++ b).takeWhile p = a ∧ (a ++ b).dropWhile p = b := by
  rw [List.takeWhile_append_of_pos ha, List.dropWhile_append_of_pos ha]
  cases b with
  | nil => simp
  | cons c b =>
    have hc : ¬ p c = true := by simp [hb c rfl]
    rw [List.takeWhile_cons_of_neg hc, List.dropWhile_cons_of_neg hc, List.append_nil]
    exact ⟨rfl, rfl⟩

/-- The head of a call is read where it stands. -/
lemma callHead?_append {head name rest : List Char} (h : IsHead head name rest) :
    callHead? (head ++ rest) = some (name, rest) := by
  obtain @⟨gap, _, gap', _, hgap, ⟨tail, rfl, hne, htail⟩, hgap', hblankless, hended⟩ := h
  have hstart : afterCallStart? (callStart ++ (gap ++ ('-' :: '-' :: tail ++ gap' ++ rest))) =
      some ('-' :: '-' :: (tail ++ (gap' ++ rest))) := by
    rw [afterCallStart?, Text.dropStart?_eq_some.mpr rfl, Option.map_some, Text.trimStart,
      (span_append hgap (by simp; decide)).2]
    simp
  -- The variable ends where the blanks begin, or without blanks where `rest` does.
  have hstop : ∀ c ∈ (gap' ++ rest).head?, isVariableChar c = false := by
    cases gap' with
    | nil => exact hended rfl
    | cons b gap' =>
      intro c hc
      by_contra hvariable
      cases hc
      have hblank := hgap' b List.mem_cons_self
      rw [isBlank_of_isVariableChar (Bool.not_eq_false _ ▸ hvariable)] at hblank
      cases hblank
  obtain ⟨htake, hdrop⟩ := span_append htail hstop
  have htrim : Text.trimStart (gap' ++ rest) = rest := (span_append hgap' hblankless).2
  rw [List.append_assoc, List.append_assoc, List.append_assoc, callHead?,
    ← List.append_assoc _ gap', hstart]
  simp only [htake, hdrop, List.isEmpty_iff, if_neg hne, htrim]

lemma head?_dropWhile {p : Char → Bool} {cs : List Char} {c : Char}
    (h : c ∈ (cs.dropWhile p).head?) : p c = false := by
  have hstop := List.head?_dropWhile_not p cs
  rw [Option.mem_def.mp h] at hstop
  exact hstop

/-- What is read as the head of a call is one. -/
lemma exists_isHead {cs name rest : List Char} (h : callHead? cs = some (name, rest)) :
    ∃ head, cs = head ++ rest ∧ IsHead head name rest := by
  rw [callHead?] at h
  split at h
  · next tail hstart =>
    simp only at h
    split_ifs at h with hempty
    cases h
    obtain ⟨gap, hcs, hgap⟩ := afterCallStart?_eq_some hstart
    obtain ⟨gap', hgap', hblanks'⟩ := exists_blanks_trimStart (tail.dropWhile isVariableChar)
    have htail : tail.takeWhile isVariableChar ++ tail.dropWhile isVariableChar = tail :=
      List.takeWhile_append_dropWhile
    refine ⟨callStart ++ gap ++ ('-' :: '-' :: tail.takeWhile isVariableChar) ++ gap', ?_,
      .intro hgap ⟨_, rfl, by simpa using hempty, fun _ hc => List.mem_takeWhile_imp hc⟩ hblanks'
        (fun _ hc => head?_dropWhile hc) ?_⟩
    · rw [hcs, List.append_assoc (_ ++ _) gap', ← hgap']
      simp [htail]
    · rintro rfl c hc
      rw [List.nil_append] at hgap'
      rw [← hgap'] at hc
      exact head?_dropWhile hc
  · cases h

/-- No head is read only where none begins. -/
lemma callHead?_eq_none {cs : List Char} : callHead? cs = none ↔ ¬ BeginsWithHead cs := by
  constructor
  · rintro hnone ⟨head, name, rest, rfl, hhead⟩
    rw [callHead?_append hhead] at hnone
    cases hnone
  · intro hbegins
    rw [Option.eq_none_iff_forall_ne_some]
    rintro ⟨name, rest⟩ hsome
    obtain ⟨head, hcs, hhead⟩ := exists_isHead hsome
    exact hbegins ⟨head, name, rest, hcs, hhead⟩

/-! ## The heads of a line -/

/-- The first head in a text, with what stands before and behind it. -/
structure FirstHead (cs before head name rest : List Char) : Prop where
  eq_append : cs = before ++ (head ++ rest)
  isHead : IsHead head name rest
  none_before : ∀ p q, before = p ++ q → q ≠ [] → ¬ BeginsWithHead (q ++ (head ++ rest))

/-- The heads that are found in a text from left to right: the first one, and then those found
behind it. A head is given with all that stands before and behind it. -/
inductive Matched : (cs before head name rest : List Char) → Prop
  | first {cs before head name rest : List Char} (h : FirstHead cs before head name rest) :
      Matched cs before head name rest
  | later {cs before head name rest before' head' name' rest' : List Char}
      (h : FirstHead cs before head name rest) (h' : Matched rest before' head' name' rest') :
      Matched cs (before ++ head ++ before') head' name' rest'

/-- The first head of a text is the first behind its first character, if it is not at the start. -/
lemma FirstHead.of_cons {c : Char} {cs before head name rest : List Char}
    (h : FirstHead (c :: cs) (c :: before) head name rest) :
    ¬ BeginsWithHead (c :: cs) ∧ FirstHead cs before head name rest := by
  have hcs := h.eq_append
  constructor
  · rw [hcs]
    exact h.none_before [] (c :: before) rfl (List.cons_ne_nil _ _)
  · refine ⟨List.cons_inj_right c |>.mp hcs, h.isHead, fun p q hpq hq => ?_⟩
    exact h.none_before (c :: p) q (by rw [hpq]; rfl) hq

/-- The first head of a text stays the first with one more character, if none begins there. -/
lemma FirstHead.cons {c : Char} {cs before head name rest : List Char}
    (h : FirstHead cs before head name rest) (hc : ¬ BeginsWithHead (c :: cs)) :
    FirstHead (c :: cs) (c :: before) head name rest := by
  refine ⟨by rw [h.eq_append]; rfl, h.isHead, fun p q hpq hq => ?_⟩
  cases p with
  | nil =>
    rw [List.nil_append] at hpq
    rw [← hpq, List.cons_append, ← h.eq_append]
    exact hc
  | cons d p => exact h.none_before p q (List.cons.inj hpq).2 hq

/-- A text has a first head or none. -/
lemma exists_firstHead (cs : List Char) :
    (∃ before head name rest, FirstHead cs before head name rest) ∨
      ∀ p q, cs = p ++ q → q ≠ [] → ¬ BeginsWithHead q := by
  induction cs with
  | nil => exact .inr fun p q hpq hq => absurd (List.append_eq_nil_iff.mp hpq.symm).2 hq
  | cons c cs ih =>
    by_cases hbegins : BeginsWithHead (c :: cs)
    · obtain ⟨head, name, rest, hcs, hhead⟩ := hbegins
      refine .inl ⟨[], head, name, rest, hcs, hhead, fun p q hpq hq => ?_⟩
      exact absurd (List.append_eq_nil_iff.mp hpq.symm).2 hq
    · rcases ih with ⟨before, head, name, rest, hfirst⟩ | hnone
      · exact .inl ⟨c :: before, head, name, rest, hfirst.cons hbegins⟩
      · refine .inr fun p q hpq hq => ?_
        cases p with
        | nil =>
          rw [List.nil_append] at hpq
          exact hpq ▸ hbegins
        | cons d p => exact hnone p q (List.cons.inj hpq).2 hq

lemma Matched.eq_append {cs before head name rest : List Char}
    (h : Matched cs before head name rest) : cs = before ++ (head ++ rest) := by
  induction h with
  | first h => exact h.eq_append
  | later h _ ih =>
    rw [h.eq_append]
    simp [ih]

lemma Matched.isHead {cs before head name rest : List Char}
    (h : Matched cs before head name rest) : IsHead head name rest := by
  induction h with
  | first h => exact h.isHead
  | later _ _ ih => exact ih

/-! ## The calls of a line -/

/-- What is found between braces is a reference. -/
lemma kind_of_bracedUsage? {line column : Nat} {cs : List Char} {u : Usage}
    (h : bracedUsage? line column cs = some u) : u.kind = .reference := by
  obtain ⟨⟨name, after⟩, -, rfl⟩ := Option.map_eq_some_iff.mp h
  rfl

/-- Characters that are to be skipped only move the column. -/
lemma usagesFrom_append (line column : Nat) (p cs : List Char) :
    usagesFrom line column p.length (p ++ cs) = usagesFrom line (column + units p) 0 cs := by
  induction p generalizing column with
  | nil => rfl
  | cons c p ih =>
    rw [List.cons_append, List.length_cons, usagesFrom, ih, Text.units_cons, Nat.add_assoc]

/-- Where no head begins, the scan looks for braces and goes on by one character. -/
lemma usagesFrom_cons_of_headless {line column : Nat} {c : Char} {cs : List Char}
    (h : ¬ BeginsWithHead (c :: cs)) :
    usagesFrom line column 0 (c :: cs) =
      (bracedUsage? line column (c :: cs)).toList ++
        usagesFrom line (column + Text.unitWidth c) 0 cs := by
  rw [usagesFrom, callHead?_eq_none.mpr h]

/-- At a head the scan looks for the call and goes on behind the head. -/
lemma usagesFrom_head {line column : Nat} {head name rest : List Char}
    (h : IsHead head name rest) :
    usagesFrom line column 0 (head ++ rest) =
      (callUsage? line column (head ++ rest) name rest).toList ++
        usagesFrom line (column + units head) 0 rest := by
  obtain ⟨c, tail, rfl⟩ := List.exists_cons_of_ne_nil h.ne_nil
  have hhead := callHead?_append h
  have hskip : (tail ++ rest).length - rest.length = tail.length := by simp
  rw [List.cons_append] at hhead ⊢
  rw [usagesFrom, hhead]
  simp only [hskip, usagesFrom_append, Text.units_cons, Nat.add_assoc]

/-- Before the first head there are aliases only; behind it the scan goes on. -/
lemma usagesFrom_of_firstHead (line column : Nat) {cs before head name rest : List Char}
    (h : FirstHead cs before head name rest) :
    ∃ aliases, usagesFrom line column 0 cs = aliases ++
        ((callUsage? line (column + units before) (head ++ rest) name rest).toList ++
          usagesFrom line (column + units before + units head) 0 rest) ∧
      ∀ u ∈ aliases, u.kind = .reference ∧ u.range.start.character < column + units before := by
  induction before generalizing cs column with
  | nil =>
    refine ⟨[], ?_, by simp⟩
    rw [h.eq_append, List.nil_append, usagesFrom_head h.isHead]
    rfl
  | cons c before ih =>
    obtain rfl : cs = c :: (before ++ (head ++ rest)) := h.eq_append
    obtain ⟨hbegins, hfirst⟩ := h.of_cons
    obtain ⟨aliases, heq, haliases⟩ := ih (column + Text.unitWidth c) hfirst
    have hwidth := Text.unitWidth_pos c
    rw [Nat.add_assoc column, ← Text.units_cons] at heq haliases
    refine ⟨(bracedUsage? line column (c :: (before ++ (head ++ rest)))).toList ++ aliases, ?_, ?_⟩
    · rw [usagesFrom_cons_of_headless hbegins, heq, List.append_assoc]
    · intro u hu
      rw [List.mem_append, Option.mem_toList] at hu
      rcases hu with hu | hu
      · refine ⟨kind_of_bracedUsage? hu, ?_⟩
        rw [(atFront_bracedUsage? hu).range_eq, Text.units_cons]
        exact Nat.lt_add_of_pos_right (Nat.add_pos_left hwidth _)
      · exact haliases u hu

/-- Without heads there are references only. -/
lemma kind_of_headless {line column : Nat} {cs : List Char}
    (h : ∀ p q, cs = p ++ q → q ≠ [] → ¬ BeginsWithHead q) {u : Usage}
    (hu : u ∈ usagesFrom line column 0 cs) : u.kind = .reference := by
  induction cs generalizing column with
  | nil =>
    rw [usagesFrom] at hu
    cases hu
  | cons c cs ih =>
    rw [usagesFrom_cons_of_headless (h [] _ rfl (List.cons_ne_nil _ _)), List.mem_append,
      Option.mem_toList] at hu
    rcases hu with hu | hu
    · exact kind_of_bracedUsage? hu
    · exact ih (fun p q hpq hq => h (c :: p) q (by rw [hpq]; rfl) hq) hu

/-- The calls of a line are those of its heads. -/
lemma exists_matched_of_mem {line column : Nat} {cs : List Char} {u : Usage}
    (hu : u ∈ usagesFrom line column 0 cs) (hkind : u.kind = .cssVariable) :
    ∃ before head name rest, Matched cs before head name rest ∧
      callUsage? line (column + units before) (head ++ rest) name rest = some u := by
  -- Behind its first head a text is shorter.
  induction hlength : cs.length using Nat.strong_induction_on generalizing cs column with
  | _ n ih =>
    rcases exists_firstHead cs with ⟨before, head, name, rest, hfirst⟩ | hnone
    · obtain ⟨aliases, heq, haliases⟩ := usagesFrom_of_firstHead line column hfirst
      rw [heq, List.mem_append, List.mem_append, Option.mem_toList] at hu
      rcases hu with hu | hu | hu
      · rw [(haliases u hu).1] at hkind
        cases hkind
      · exact ⟨before, head, name, rest, .first hfirst, hu⟩
      · have hshorter : rest.length < n := by
          have hhead := List.length_pos_iff.mpr hfirst.isHead.ne_nil
          rw [← hlength, hfirst.eq_append]
          simp only [List.length_append]
          omega
        obtain ⟨before', head', name', rest', hmatched, hcall⟩ := ih _ hshorter hu rfl
        refine ⟨_, head', name', rest', .later hfirst hmatched, ?_⟩
        rw [← hcall, Text.units_append, Text.units_append]
        simp only [Nat.add_assoc]
    · rw [kind_of_headless hnone hu] at hkind
      cases hkind

/-- The call of a matched head is found. -/
lemma Matched.mem_usagesFrom {line column : Nat} {cs before head name rest : List Char} {u : Usage}
    (h : Matched cs before head name rest)
    (hcall : callUsage? line (column + units before) (head ++ rest) name rest = some u) :
    u ∈ usagesFrom line column 0 cs := by
  induction h generalizing column with
  | first hfirst =>
    obtain ⟨aliases, heq, -⟩ := usagesFrom_of_firstHead line column hfirst
    rw [heq, List.mem_append, List.mem_append, Option.mem_toList]
    exact .inr (.inl hcall)
  | later hfirst _ ih =>
    obtain ⟨aliases, heq, -⟩ := usagesFrom_of_firstHead line column hfirst
    rw [heq, List.mem_append, List.mem_append]
    refine .inr (.inr (ih ?_))
    rw [Text.units_append, Text.units_append] at hcall
    rw [← hcall]
    simp only [Nat.add_assoc]

/-- No usage begins inside the head of a call. -/
lemma Matched.behind {line column : Nat} {cs before head name rest : List Char} {u : Usage}
    (h : Matched cs before head name rest) (hu : u ∈ usagesFrom line column 0 cs)
    (hlt : column + units before < u.range.start.character) :
    column + units before + units head ≤ u.range.start.character := by
  induction h generalizing column with
  | first hfirst =>
    obtain ⟨aliases, heq, haliases⟩ := usagesFrom_of_firstHead line column hfirst
    rw [heq, List.mem_append, List.mem_append, Option.mem_toList] at hu
    rcases hu with hu | hu | hu
    · have hbefore := (haliases u hu).2
      omega
    · rw [(atFront_callUsage? (callHead?_append hfirst.isHead) hu).range_eq] at hlt
      exact absurd hlt (Nat.lt_irrefl _)
    · exact (start_of_mem_usagesFrom hu).2
  | later hfirst _ ih =>
    obtain ⟨aliases, heq, haliases⟩ := usagesFrom_of_firstHead line column hfirst
    rw [Text.units_append, Text.units_append] at hlt ⊢
    rw [heq, List.mem_append, List.mem_append, Option.mem_toList] at hu
    rcases hu with hu | hu | hu
    · have hbefore := (haliases u hu).2
      omega
    · have hstart := (atFront_callUsage? (callHead?_append hfirst.isHead) hu).range_eq
      have hcolumn := congrArg Position.character hstart
      simp only at hcolumn
      omega
    · have hrest := ih hu (by omega)
      omega

/-! ## Closed heads -/

/-- What follows the head of a call closes it, at once or behind a second argument. -/
def Closed (rest : List Char) : Prop :=
  (∃ after, rest = ')' :: after) ∨
    ∃ argument after, rest = ',' :: argument ++ ')' :: after ∧ Balanced argument

/-- A call that is read is closed, and balanced up to its closing parenthesis. -/
lemma balanced_of_callRest? {rest after : List Char} {fallback : Option String}
    (h : callRest? rest = some (fallback, after)) :
    Closed rest ∧ ∃ inside, rest = inside ++ ')' :: after ∧ Balanced inside := by
  rw [callRest?.eq_def] at h
  split at h
  · cases h
    exact ⟨.inl ⟨after, rfl⟩, [], rfl, balanced_of_notMem (by simp) (by simp)⟩
  · next args =>
    obtain ⟨⟨argument, _⟩, hclosing, hpair⟩ := Option.map_eq_some_iff.mp h
    cases hpair
    obtain ⟨rfl, hbalanced⟩ := toClosing?_eq_some_iff.mp hclosing
    have hcomma : Balanced [','] := balanced_of_notMem (by decide) (by decide)
    exact ⟨.inr ⟨argument, after, rfl, hbalanced⟩, ',' :: argument, rfl, hcomma.append hbalanced⟩
  · cases h

/-- A call that is closed is read. -/
lemma exists_callRest? {rest : List Char} (h : Closed rest) :
    ∃ fallback after, callRest? rest = some (fallback, after) := by
  rcases h with ⟨after, rfl⟩ | ⟨argument, after, rfl, hbalanced⟩
  · exact ⟨none, after, rfl⟩
  · have hclosing : toClosing? 0 (argument ++ ')' :: after) = some (argument, after) :=
      toClosing?_eq_some_iff.mpr ⟨rfl, hbalanced⟩
    refine ⟨fallbackOf argument, after, ?_⟩
    rw [List.cons_append, callRest?, hclosing]
    simp only [Option.map_some, fallbackOf, List.isEmpty_iff]

/-- A head is the start of a call and something balanced. -/
lemma IsHead.exists_inside {head name rest : List Char} (h : IsHead head name rest) :
    ∃ inside, head = callStart ++ inside ∧ Balanced inside := by
  obtain @⟨gap, _, gap', _, hgap, ⟨tail, rfl, -, htail⟩, hgap', -, -⟩ := h
  have hblanks : ∀ {cs : List Char}, Blanks cs → Balanced cs := fun h =>
    balanced_of_notMem (fun hc => absurd (h _ hc) (by decide)) fun hc => absurd (h _ hc) (by decide)
  have htail : Balanced tail :=
    balanced_of_notMem (fun hc => absurd (htail _ hc) (by decide))
      fun hc => absurd (htail _ hc) (by decide)
  have hhyphens : Balanced ['-', '-'] := balanced_of_notMem (by decide) (by decide)
  have hname : Balanced ('-' :: '-' :: tail) := hhyphens.append htail
  exact ⟨gap ++ ('-' :: '-' :: tail) ++ gap', by simp,
    ((hblanks hgap).append hname).append (hblanks hgap')⟩

/-- The range of a call ends behind the parenthesis that matches the one of its head. -/
lemma range_of_callUsage? {line column : Nat} {head name rest : List Char} {u : Usage}
    (h : IsHead head name rest) (hcall : callUsage? line column (head ++ rest) name rest = some u) :
    Closed rest ∧ u.name = String.ofList name ∧
      ∃ inside after, head ++ rest = callStart ++ inside ++ [')'] ++ after ∧ Balanced inside ∧
        u.range = .onLine line column (column + units (callStart ++ inside ++ [')'])) := by
  obtain ⟨⟨fallback, after⟩, hrest, rfl⟩ := Option.map_eq_some_iff.mp hcall
  obtain ⟨hclosed, inside', rfl, hbalanced'⟩ := balanced_of_callRest? hrest
  obtain ⟨inside, rfl, hbalanced⟩ := h.exists_inside
  have hbody : callStart ++ inside ++ (inside' ++ ')' :: after) =
      callStart ++ (inside ++ inside') ++ [')'] ++ after := by simp
  refine ⟨hclosed, rfl, inside ++ inside', after, hbody, hbalanced.append hbalanced', ?_⟩
  simp only [hbody, rangeUpTo_append]

/-- A beginning without some character ends before the first such character. -/
lemma prefix_of_notMem {a b c d : List Char} {x : Char} (h : a ++ x :: c = b ++ d) (hb : x ∉ b) :
    b <+: a := by
  rcases List.append_eq_append_iff.mp h with ⟨y, rfl, hy⟩ | ⟨y, rfl, -⟩
  · cases y with
    | nil => simp
    | cons e y =>
      rw [List.cons_append, List.cons.injEq] at hy
      exact absurd (by simp [hy.1]) hb
  · exact List.prefix_append _ _

/-- Where one call begins behind the beginning of another, it begins behind its start. -/
lemma callStart_begins {m cs cs' : List Char} (hm : m ≠ [])
    (h : callStart ++ cs = m ++ (callStart ++ cs')) : callStart <+: m := by
  obtain ⟨e, m, rfl⟩ := List.exists_cons_of_ne_nil hm
  obtain ⟨rfl, htail⟩ := List.cons.inj h
  have hletter : ['a', 'r', '('] <+: m := prefix_of_notMem htail.symm (by decide)
  exact List.cons_prefix_cons.mpr ⟨rfl, hletter⟩

/-- A call that begins inside another one ends there too. -/
lemma nested_of_overlap {before inside after before' inside' after' : List Char}
    (heq : before ++ (callStart ++ inside ++ [')'] ++ after) =
      before' ++ (callStart ++ inside' ++ [')'] ++ after'))
    (h : Balanced inside) (h' : Balanced inside') (hlt : before.length < before'.length)
    (hin : before'.length < (before ++ (callStart ++ inside ++ [')'])).length) :
    ∃ x z, before' = before ++ callStart ++ x ∧
      inside = x ++ callStart ++ inside' ++ [')'] ++ z := by
  obtain ⟨m, rfl⟩ : before <+: before' := by
    have hbefore := List.prefix_append before (callStart ++ inside ++ [')'] ++ after)
    rw [heq] at hbefore
    exact List.prefix_of_prefix_length_le hbefore (List.prefix_append _ _) hlt.le
  have hm : m ≠ [] := by
    rintro rfl
    simp at hlt
  simp only [List.append_assoc, List.append_cancel_left_eq, List.singleton_append] at heq
  obtain ⟨x, rfl⟩ := callStart_begins hm heq
  simp only [List.append_assoc, List.append_cancel_left_eq] at heq
  -- Behind `x` the inside goes on with the other call.
  obtain ⟨y, rfl⟩ : x <+: inside := by
    have hinside := List.prefix_append inside (')' :: after)
    rw [heq] at hinside
    refine List.prefix_of_prefix_length_le (List.prefix_append _ _) hinside ?_
    simp only [List.length_append, List.length_singleton] at hin
    omega
  rw [List.append_assoc, List.append_cancel_left_eq] at heq
  -- The start of a call has no closing parenthesis, so it ends before the one behind `y`.
  obtain ⟨y', rfl⟩ : callStart <+: y := prefix_of_notMem heq (by decide)
  rw [List.append_assoc, List.append_cancel_left_eq] at heq
  have hopened : Balanced (x ++ ['v', 'a', 'r'] ++ '(' :: y') := by
    simpa [callStart] using h
  obtain ⟨z, rfl⟩ := hopened.closed_within h' heq
  exact ⟨x, z, by simp, by simp⟩

/-! ## The calls of a document -/

/-- What is found in a line is found in the text. -/
lemma mem_usagesInLines_of_getElem? {n i : Nat} {ls : List (List Char)} {line : List Char}
    {u : Usage} (hline : ls[i]? = some line) (hu : u ∈ usagesFrom (n + i) 0 0 line) :
    u ∈ usagesInLines n ls := by
  induction ls generalizing n i with
  | nil => simp at hline
  | cons cs ls ih =>
    rw [usagesInLines, List.mem_append]
    cases i with
    | zero =>
      obtain rfl : cs = line := by simpa using hline
      exact .inl hu
    | succ i =>
      rw [Nat.add_comm i 1, ← Nat.add_assoc] at hu
      exact .inr (ih (by simpa using hline) hu)

/-- The usages of a document on one of its lines. -/
lemma mem_usagesFrom_iff {text : String} {i : Nat} {line : List Char} {u : Usage}
    (hline : (Text.lines text.toList)[i]? = some line) :
    u ∈ usagesFrom i 0 0 line ↔ u ∈ usages text ∧ u.range.start.line = i := by
  constructor
  · intro hu
    exact ⟨mem_usagesInLines_of_getElem? hline (by rwa [Nat.zero_add]),
      (start_of_mem_usagesFrom hu).1⟩
  · rintro ⟨hu, hi⟩
    obtain ⟨j, line', hline', hu'⟩ := mem_usagesInLines hu
    rw [Nat.zero_add] at hu'
    obtain rfl : j = i := (start_of_mem_usagesFrom hu').1.symm.trans hi
    rw [hline, Option.some.injEq] at hline'
    rwa [hline']

/-! ## Two calls of a line -/

lemma le_onLine {line a b : Nat} : Position.le ⟨line, a⟩ ⟨line, b⟩ = true ↔ a ≤ b := by
  simp [Position.le_iff]

/-- Of two beginnings of a text, the one with no more units begins the other. -/
lemma prefix_of_units_le {a b c d : List Char} (h : a ++ c = b ++ d) (hunits : units a ≤ units b) :
    a <+: b := by
  rcases List.append_eq_append_iff.mp h with ⟨x, rfl, -⟩ | ⟨x, rfl, -⟩
  · exact List.prefix_append _ _
  · cases x with
    | nil => simp
    | cons e x =>
      have hwidth := Text.unitWidth_pos e
      rw [Text.units_append, Text.units_cons] at hunits
      omega

/-- Beginnings of one text with the same number of units are the same. -/
lemma eq_of_units_eq {a b c d : List Char} (h : a ++ c = b ++ d) (hunits : units a = units b) :
    a = b :=
  (prefix_of_units_le h hunits.le).eq_of_length_le (prefix_of_units_le h.symm hunits.ge).length_le

/-- A line has one head at a column. -/
lemma Matched.unique {cs before head name rest before' head' name' rest' : List Char}
    (h : Matched cs before head name rest) (h' : Matched cs before' head' name' rest')
    (hunits : units before = units before') : before = before' ∧ name = name' ∧ rest = rest' := by
  have heq := h.eq_append.symm.trans h'.eq_append
  obtain rfl := eq_of_units_eq heq hunits
  rw [List.append_cancel_left_eq] at heq
  have hhead := callHead?_append h.isHead
  rw [heq, callHead?_append h'.isHead] at hhead
  cases hhead
  exact ⟨rfl, rfl, rfl⟩

/-- The text of a call in a line, up to the parenthesis that matches its first one, and its
range. -/
structure Spans (i : Nat) (line before inside after : List Char) (range : Range) : Prop where
  eq_append : line = before ++ (callStart ++ inside ++ [')'] ++ after)
  balanced : Balanced inside
  range_eq : range = .onLine i (units before) (units (before ++ (callStart ++ inside ++ [')'])))

/-- A call that does not begin before another one begins behind it or is inside of it. -/
lemma Spans.apart_or_within {i : Nat} {line before inside after before' inside' after' : List Char}
    {range range' : Range} (h : Spans i line before inside after range)
    (h' : Spans i line before' inside' after' range') (hle : before.length ≤ before'.length) :
    range.Apart range' ∨ range'.Within range := by
  have heq := h.eq_append.symm.trans h'.eq_append
  rw [h.range_eq, h'.range_eq]
  by_cases hin : before'.length < (before ++ (callStart ++ inside ++ [')'])).length
  · right
    rcases hle.lt_or_eq with hlt | hlength
    · obtain ⟨x, z, rfl, rfl⟩ := nested_of_overlap heq h.balanced h'.balanced hlt hin
      refine ⟨le_onLine.mpr ?_, le_onLine.mpr ?_⟩ <;> simp only [Text.units_append] <;> omega
    · -- Where both begin at one place they end at one, the first that matches.
      obtain ⟨rfl, heq⟩ := List.append_inj heq hlength
      simp only [List.append_assoc, List.append_cancel_left_eq, List.singleton_append] at heq
      have hinside : toClosing? 0 (inside ++ ')' :: after) = some (inside, after) :=
        toClosing?_eq_some_iff.mpr ⟨rfl, h.balanced⟩
      rw [toClosing?_eq_some_iff.mpr ⟨heq, h'.balanced⟩] at hinside
      cases hinside
      exact ⟨le_onLine.mpr le_rfl, le_onLine.mpr le_rfl⟩
  · left
    have hend : before ++ (callStart ++ inside ++ [')']) <+: before' := by
      have hline := List.prefix_append (before ++ (callStart ++ inside ++ [')'])) after
      rw [List.append_assoc before, heq] at hline
      exact List.prefix_of_prefix_length_le hline (List.prefix_append _ _) (by omega)
    exact .inl (le_onLine.mpr (Text.units_le_of_sublist hend.sublist))

/-- A call of a document is that of a head of one of its lines. -/
lemma exists_callUsage? {text : String} {u : Usage} (hu : u ∈ usages text)
    (hkind : u.kind = .cssVariable) :
    ∃ i line before head name rest, (Text.lines text.toList)[i]? = some line ∧
      Matched line before head name rest ∧
      callUsage? i (units before) (head ++ rest) name rest = some u := by
  obtain ⟨i, line, hline, hmem⟩ := mem_usagesInLines hu
  rw [Nat.zero_add] at hmem
  obtain ⟨before, head, name, rest, hmatched, hcall⟩ := exists_matched_of_mem hmem hkind
  rw [Nat.zero_add] at hcall
  exact ⟨i, line, before, head, name, rest, hline, hmatched, hcall⟩

/-- The head of a call is closed, and the call spans the text up to the matching parenthesis. -/
lemma exists_matched {text : String} {u : Usage} (hu : u ∈ usages text)
    (hkind : u.kind = .cssVariable) :
    ∃ i line before head name rest inside after, (Text.lines text.toList)[i]? = some line ∧
      Matched line before head name rest ∧ Closed rest ∧ u.name = String.ofList name ∧
      Spans i line before inside after u.range := by
  obtain ⟨i, line, before, head, name, rest, hline, hmatched, hcall⟩ := exists_callUsage? hu hkind
  obtain ⟨hclosed, hname, inside, after, htext, hbalanced, hrange⟩ :=
    range_of_callUsage? hmatched.isHead hcall
  refine ⟨i, line, before, head, name, rest, inside, after, hline, hmatched, hclosed, hname,
    by rw [hmatched.eq_append, htext], hbalanced, ?_⟩
  rw [hrange, Text.units_append before]

/-- A call that begins where a head does is the call of that head. -/
lemma Matched.of_usage {text : String} {i : Nat} {line before head name rest : List Char}
    {u : Usage} (h : Matched line before head name rest)
    (hline : (Text.lines text.toList)[i]? = some line) (hu : u ∈ usages text)
    (hkind : u.kind = .cssVariable) (hstart : u.range.start = ⟨i, units before⟩) :
    Closed rest ∧ ∃ inside after, Spans i line before inside after u.range := by
  obtain ⟨j, line', before', head', name', rest', inside, after, hline', hmatched, hclosed, -,
    hspans⟩ := exists_matched hu hkind
  rw [hspans.range_eq] at hstart
  obtain ⟨rfl, hunits⟩ : j = i ∧ units before' = units before := Position.mk.inj hstart
  rw [hline, Option.some.injEq] at hline'
  subst hline'
  obtain ⟨rfl, -, rfl⟩ := hmatched.unique h hunits
  exact ⟨hclosed, inside, after, hspans⟩

/-- Two calls on one line are apart or one is inside of the other. -/
lemma apart_or_within {text : String} {u v : Usage} (hu : u ∈ usages text) (hv : v ∈ usages text)
    (hkind : u.kind = .cssVariable) (hkind' : v.kind = .cssVariable)
    (hsame : u.range.start.line = v.range.start.line) :
    u.range.Apart v.range ∨ u.range.Within v.range ∨ v.range.Within u.range := by
  obtain ⟨i, line, before, -, -, -, inside, after, hline, -, -, -, hspans⟩ :=
    exists_matched hu hkind
  obtain ⟨j, line', before', -, -, -, inside', after', hline', -, -, -, hspans'⟩ :=
    exists_matched hv hkind'
  rw [hspans.range_eq, hspans'.range_eq] at hsame
  obtain rfl : i = j := hsame
  rw [hline, Option.some.injEq] at hline'
  subst hline'
  rcases le_total before.length before'.length with hle | hle
  · rcases hspans.apart_or_within hspans' hle with hapart | hwithin
    · exact .inl hapart
    · exact .inr (.inr hwithin)
  · rcases hspans'.apart_or_within hspans hle with hapart | hwithin
    · exact .inl hapart.symm
    · exact .inr (.inl hwithin)

/-- A call is reported for a head of a line exactly if the head is closed, and its range then ends
behind the matching parenthesis. While the call is read, the depth is the level of what was read.
Two calls on one line are apart, or one is inside of the other. -/
theorem calls_nested (text : String) :
    (∀ (i : Nat) (line : List Char), (Text.lines text.toList)[i]? = some line →
      ∀ before head name rest, Matched line before head name rest →
        ((∃ u ∈ usages text, u.kind = .cssVariable ∧ u.name = String.ofList name ∧
            u.range.start = ⟨i, units before⟩) ↔ Closed rest) ∧
        (∀ u ∈ usages text, u.kind = .cssVariable → u.range.start = ⟨i, units before⟩ →
          ∃ inside after, Spans i line before inside after u.range) ∧
        ∀ read unread, rest = ',' :: read ++ unread →
          (∀ p, p ++ [')'] <+: read → level p ≠ 0) →
          ∃ depth : Nat, (depth : Int) = level read ∧
            toClosing? 0 (read ++ unread) =
              (toClosing? depth unread).map fun found => (read ++ found.1, found.2)) ∧
    (∀ u ∈ usages text, u.kind = .cssVariable →
      ∃ i line before head name rest, (Text.lines text.toList)[i]? = some line ∧
        Matched line before head name rest ∧ u.name = String.ofList name ∧
        u.range.start = ⟨i, units before⟩) ∧
    ∀ u ∈ usages text, ∀ v ∈ usages text, u.kind = .cssVariable → v.kind = .cssVariable →
      u.range.start.line = v.range.start.line →
        u.range.Apart v.range ∨ u.range.Within v.range ∨ v.range.Within u.range := by
  refine ⟨fun i line hline before head name rest hmatched => ⟨⟨?_, fun hclosed => ?_⟩, ?_, ?_⟩,
    fun u hu hkind => ?_, fun u hu v hv => apart_or_within hu hv⟩
  · rintro ⟨u, hu, hkind, -, hstart⟩
    exact (hmatched.of_usage hline hu hkind hstart).1
  · obtain ⟨fallback, after, hrest⟩ := exists_callRest? hclosed
    have hcall : callUsage? i (0 + units before) (head ++ rest) name rest = some
        ⟨.cssVariable, String.ofList name, fallback,
          rangeUpTo i (0 + units before) (head ++ rest) after⟩ := by
      rw [callUsage?, hrest]
      rfl
    have hmem := hmatched.mem_usagesFrom hcall
    refine ⟨_, ((mem_usagesFrom_iff hline).mp hmem).1, rfl, rfl, ?_⟩
    rw [rangeUpTo, Nat.zero_add]
    rfl
  · intro u hu hkind hstart
    exact (hmatched.of_usage hline hu hkind hstart).2
  · intro read unread _ hopen
    have hread : ∀ p, p ++ [')'] <+: read → ((0 : Nat) : Int) + level p ≠ 0 := by
      intro p hp
      have hp := hopen p hp
      omega
    obtain ⟨depth, hdepth, heq⟩ := toClosing?_append unread hread
    exact ⟨depth, by omega, heq⟩
  · obtain ⟨i, line, before, head, name, rest, inside, after, hline, hmatched, -, hname, hspans⟩ :=
      exists_matched hu hkind
    refine ⟨i, line, before, head, name, rest, hline, hmatched, hname, ?_⟩
    rw [hspans.range_eq]
    rfl

/-- Calls in calls, behind a function and behind a character of two units, and two that are not
closed. -/
def nestedText : String :=
  "😀var( --a ,f(var(--b , (1))) ) )var(--c var(--d,(var(--e)"

/-- What follows the first head in the text. -/
def nestedRest : List Char :=
  ",f(var(--b , (1))) ) )var(--c var(--d,(var(--e)".toList

lemma matched_nestedText :
    Matched nestedText.toList ['😀'] "var( --a ".toList "--a".toList nestedRest := by
  have hhead : callHead? ("var( --a ".toList ++ nestedRest) = some ("--a".toList, nestedRest) := by
    decide +kernel
  obtain ⟨head, heq, hisHead⟩ := exists_isHead hhead
  obtain rfl := List.append_cancel_right heq
  refine .first ⟨by decide +kernel, hisHead, fun p q hpq hq => ?_⟩
  obtain rfl : q = ['😀'] := by
    rcases List.singleton_eq_append_iff.mp hpq with ⟨-, hq'⟩ | ⟨-, rfl⟩
    · exact hq'
    · exact absurd rfl hq
  exact callHead?_eq_none.mp (by decide +kernel)

theorem calls_nested_deep :
    usages nestedText =
      [⟨.cssVariable, "--a", some "f(var(--b , (1)))", .onLine 0 2 31⟩,
        ⟨.cssVariable, "--b", some "(1)", .onLine 0 14 28⟩,
        ⟨.cssVariable, "--e", none, .onLine 0 50 58⟩] ∧
    Matched nestedText.toList ['😀'] "var( --a ".toList "--a".toList nestedRest ∧
    Closed nestedRest ∧
    (∃ inside after, Spans 0 nestedText.toList ['😀'] inside after (.onLine 0 2 31)) ∧
    ((Range.onLine 0 2 31).Apart (.onLine 0 14 28) ∨
      (Range.onLine 0 2 31).Within (.onLine 0 14 28) ∨
      (Range.onLine 0 14 28).Within (.onLine 0 2 31)) := by
  have husages : usages nestedText =
      [⟨.cssVariable, "--a", some "f(var(--b , (1)))", .onLine 0 2 31⟩,
        ⟨.cssVariable, "--b", some "(1)", .onLine 0 14 28⟩,
        ⟨.cssVariable, "--e", none, .onLine 0 50 58⟩] := by
    decide +kernel
  have hline : (Text.lines nestedText.toList)[0]? = some nestedText.toList := by decide +kernel
  obtain ⟨hheads, -, hpairs⟩ := calls_nested nestedText
  obtain ⟨hclosed, hspans, -⟩ := hheads 0 _ hline _ _ _ _ matched_nestedText
  rw [husages] at hclosed hspans hpairs
  refine ⟨husages, matched_nestedText, hclosed.mp ⟨_, List.mem_cons_self, rfl, ?_, rfl⟩,
    hspans _ List.mem_cons_self rfl rfl,
    hpairs _ List.mem_cons_self _ (List.mem_cons_of_mem _ List.mem_cons_self) rfl rfl rfl⟩
  decide +kernel

end Editor

end DesignTokens
