import DesignTokens.Editor.Usage
import DesignTokens.Proofs.ReferenceGraph
import Mathlib.Data.List.TakeWhile

/-!
# The ranges of usages

`Written` says how a usage looks in a document: an alias in braces, or a call with its variable and
perhaps a fallback. What the scanner takes for a usage at the front of a text is written there, and
the range covers just that (`AtFront`). The scan of a line gives usages that stand somewhere in it
(`exists_atFront`), each starting behind the one before (`pairwise_usagesFrom`). It finds what two
scanners find, one for calls and one for aliases, whose matches are sorted in the end
(`scannedUsages_eq`). So every usage of a document can be read off its range, and the list is in the
order of the document (`usages_faithful`).
-/

namespace DesignTokens

/-- Whether a position stands before another. -/
def Position.Precedes (a b : Position) : Prop :=
  a.line < b.line ∨ a.line = b.line ∧ a.character < b.character

namespace Editor

open Text (units bytes)

/-! ## How usages are written -/

/-- A text of blanks. -/
def Blanks (cs : List Char) : Prop :=
  ∀ c ∈ cs, Text.isBlank c = true

/-- The name of a CSS variable. -/
def IsVariable (name : List Char) : Prop :=
  ∃ rest, name = '-' :: '-' :: rest ∧ rest ≠ [] ∧ ∀ c ∈ rest, isVariableChar c = true

/-- The name in an alias. -/
def IsAlias (name : List Char) : Prop :=
  name ≠ [] ∧ ∀ c ∈ name, isAliasChar c = true

/-- The fallback of a call with such a second argument. -/
def fallbackOf (argument : List Char) : Option String :=
  if Text.trimChars argument = [] then none else some (String.ofList (Text.trimChars argument))

/-- How a usage of a kind, with a name and a fallback, is written. -/
inductive Written : UsageKind → String → Option String → List Char → Prop
  | reference {name : List Char} (isAlias : IsAlias name) :
      Written .reference (String.ofList name) none ('{' :: name ++ ['}'])
  | call {gap name gap' : List Char} (blanks : Blanks gap) (isVariable : IsVariable name)
      (blanks' : Blanks gap') :
      Written .cssVariable (String.ofList name) none
        (['v', 'a', 'r', '('] ++ gap ++ name ++ gap' ++ [')'])
  | callWith {gap name gap' argument : List Char} (blanks : Blanks gap)
      (isVariable : IsVariable name) (blanks' : Blanks gap') :
      Written .cssVariable (String.ofList name) (fallbackOf argument)
        (['v', 'a', 'r', '('] ++ gap ++ name ++ gap' ++ (',' :: argument ++ [')']))

lemma Written.ne_nil {kind : UsageKind} {name : String} {fallback : Option String}
    {body : List Char} (h : Written kind name fallback body) : body ≠ [] := by
  cases h <;> simp

/-! ## The front of a text -/

/-- What is trimmed from the front are blanks. -/
lemma exists_blanks_trimStart (cs : List Char) :
    ∃ gap, cs = gap ++ Text.trimStart cs ∧ Blanks gap :=
  ⟨cs.takeWhile Text.isBlank, (List.takeWhile_append_dropWhile ..).symm,
    fun _ hc => List.mem_takeWhile_imp hc⟩

/-- A call starts with its word and parenthesis, and blanks may follow. -/
lemma afterCallStart?_eq_some {cs rest : List Char} (h : afterCallStart? cs = some rest) :
    ∃ gap, cs = callStart ++ gap ++ rest ∧ Blanks gap := by
  obtain ⟨tail, htail, rfl⟩ := Option.map_eq_some_iff.mp h
  obtain ⟨gap, hgap, hblanks⟩ := exists_blanks_trimStart tail
  refine ⟨gap, ?_, hblanks⟩
  rw [List.append_assoc, ← hgap]
  exact Text.dropStart?_eq_some.mp htail

/-- The start of a call is followed by its variable. -/
lemma callHead?_eq_some {cs name rest : List Char} (h : callHead? cs = some (name, rest)) :
    ∃ gap gap', cs = callStart ++ gap ++ name ++ gap' ++ rest ∧ Blanks gap ∧ IsVariable name ∧
      Blanks gap' := by
  rw [callHead?] at h
  split at h
  · next tail hstart =>
    simp only at h
    split_ifs at h with hempty
    cases h
    obtain ⟨gap, hcs, hblanks⟩ := afterCallStart?_eq_some hstart
    obtain ⟨gap', hgap', hblanks'⟩ := exists_blanks_trimStart (tail.dropWhile isVariableChar)
    refine ⟨gap, gap', ?_, hblanks, ⟨_, rfl, ?_, fun _ hc => List.mem_takeWhile_imp hc⟩, hblanks'⟩
    · have htail : tail.takeWhile isVariableChar ++ tail.dropWhile isVariableChar = tail :=
        List.takeWhile_append_dropWhile
      rw [hcs, List.append_assoc (_ ++ _) gap', ← hgap']
      simp [htail]
    · simpa using hempty
  · cases h

/-- A call is closed by a parenthesis. -/
lemma toClosing?_eq_some {depth : Nat} {cs inside rest : List Char}
    (h : toClosing? depth cs = some (inside, rest)) : cs = inside ++ ')' :: rest := by
  induction cs generalizing depth inside with
  | nil =>
    rw [toClosing?] at h
    cases h
  | cons c cs ih =>
    rw [toClosing?.eq_def] at h
    simp only at h
    by_cases hc : c = ')'
    · rw [if_pos hc] at h
      cases depth with
      | zero =>
        cases h
        rw [hc]
        rfl
      | succ depth =>
        obtain ⟨⟨inside', rest'⟩, hrest, heq⟩ := Option.map_eq_some_iff.mp h
        cases heq
        rw [ih hrest]
        rfl
    · rw [if_neg hc] at h
      obtain ⟨⟨inside', rest'⟩, hrest, heq⟩ := Option.map_eq_some_iff.mp h
      cases heq
      rw [ih hrest]
      rfl

/-- What follows the variable of a call. -/
lemma callRest?_eq_some {cs after : List Char} {fallback : Option String}
    (h : callRest? cs = some (fallback, after)) :
    (cs = ')' :: after ∧ fallback = none) ∨
      ∃ argument, cs = ',' :: argument ++ ')' :: after ∧ fallback = fallbackOf argument := by
  rw [callRest?.eq_def] at h
  split at h
  · cases h
    exact .inl ⟨rfl, rfl⟩
  · next args =>
    obtain ⟨⟨inside, rest⟩, hclosing, heq⟩ := Option.map_eq_some_iff.mp h
    cases heq
    refine .inr ⟨inside, ?_, ?_⟩
    · rw [toClosing?_eq_some hclosing]
      rfl
    · simp only [fallbackOf, List.isEmpty_iff]
  · cases h

/-- What is read between braces is an alias. -/
lemma braced?_eq_some {cs after : List Char} {name : String}
    (h : braced? cs = some (name, after)) :
    ∃ chars, name = String.ofList chars ∧ cs = '{' :: chars ++ '}' :: after ∧ IsAlias chars := by
  rw [braced?.eq_def] at h
  split at h
  · next body =>
    simp only at h
    split at h
    · next after' hafter =>
      split_ifs at h with hempty
      cases h
      have hbody : body.takeWhile isAliasChar ++ body.dropWhile isAliasChar = body :=
        List.takeWhile_append_dropWhile
      refine ⟨_, rfl, ?_, by simpa using hempty, fun _ hc => List.mem_takeWhile_imp hc⟩
      rw [hafter] at hbody
      rw [List.cons_append, hbody]
    · cases h
  · cases h

/-- An alias starts with an opening brace. -/
lemma braced?_eq_none {c : Char} (hc : c ≠ '{') (cs : List Char) : braced? (c :: cs) = none := by
  rw [braced?.eq_def]
  split
  · next body heq => exact absurd (List.cons.inj heq).1 hc
  · rfl

/-- The usage is what is written at the front of a text that begins at a column of a line. -/
def AtFront (line column : Nat) (cs : List Char) (u : Usage) : Prop :=
  ∃ body after, cs = body ++ after ∧ Written u.kind u.name u.fallback body ∧
    u.range = .onLine line column (column + units body)

/-- A range has the units of what it covers. -/
lemma rangeUpTo_append (line column : Nat) (body after : List Char) :
    rangeUpTo line column (body ++ after) after = .onLine line column (column + units body) := by
  rw [rangeUpTo, Text.units_append, Nat.add_sub_cancel]

/-- A call is found where it stands. -/
lemma atFront_callUsage? {line column : Nat} {cs name rest : List Char} {u : Usage}
    (hhead : callHead? cs = some (name, rest))
    (h : callUsage? line column cs name rest = some u) : AtFront line column cs u := by
  obtain ⟨⟨fallback, after⟩, hrest, rfl⟩ := Option.map_eq_some_iff.mp h
  obtain ⟨gap, gap', hcs, hblanks, hname, hblanks'⟩ := callHead?_eq_some hhead
  rcases callRest?_eq_some hrest with ⟨hclose, rfl⟩ | ⟨argument, hclose, rfl⟩
  · have hbody : cs = (callStart ++ gap ++ name ++ gap' ++ [')']) ++ after := by
      rw [hcs, hclose]
      simp
    refine ⟨_, after, hbody, .call hblanks hname hblanks', ?_⟩
    simp only [hbody, rangeUpTo_append]
  · have hbody : cs =
        (callStart ++ gap ++ name ++ gap' ++ (',' :: argument ++ [')'])) ++ after := by
      rw [hcs, hclose]
      simp
    refine ⟨_, after, hbody, .callWith hblanks hname hblanks', ?_⟩
    simp only [hbody, rangeUpTo_append]

/-- An alias is found where it stands. -/
lemma atFront_bracedUsage? {line column : Nat} {cs : List Char} {u : Usage}
    (h : bracedUsage? line column cs = some u) : AtFront line column cs u := by
  obtain ⟨⟨name, after⟩, hbraced, rfl⟩ := Option.map_eq_some_iff.mp h
  obtain ⟨chars, rfl, hcs, hchars⟩ := braced?_eq_some hbraced
  have hbody : cs = ('{' :: chars ++ ['}']) ++ after := by
    rw [hcs]
    simp
  refine ⟨_, after, hbody, .reference hchars, ?_⟩
  simp only [hbody, rangeUpTo_append]

/-! ## The usages of a line -/

/-- A step of the scan: perhaps a usage at the front, and then the scan of what follows. -/
lemma usagesFrom_cons (line column skip : Nat) (c : Char) (cs : List Char) :
    ∃ (first : Option Usage) (skip' : Nat),
      usagesFrom line column skip (c :: cs) =
        first.toList ++ usagesFrom line (column + Text.unitWidth c) skip' cs ∧
      ∀ u, first = some u → AtFront line column (c :: cs) u := by
  cases skip with
  | succ skip => exact ⟨none, skip, rfl, by simp⟩
  | zero =>
    rw [usagesFrom]
    cases hhead : callHead? (c :: cs) with
    | some head =>
      obtain ⟨name, rest⟩ := head
      exact ⟨_, _, rfl, fun u hu => atFront_callUsage? hhead hu⟩
    | none => exact ⟨_, _, rfl, fun u hu => atFront_bracedUsage? hu⟩

/-- A usage of a line stands somewhere in it. -/
lemma exists_atFront {line column skip : Nat} {cs : List Char} {u : Usage}
    (h : u ∈ usagesFrom line column skip cs) :
    ∃ before rest, cs = before ++ rest ∧ AtFront line (column + units before) rest u := by
  induction cs generalizing column skip with
  | nil =>
    rw [usagesFrom] at h
    cases h
  | cons c cs ih =>
    obtain ⟨first, skip', hstep, hfirst⟩ := usagesFrom_cons line column skip c cs
    rw [hstep, List.mem_append, Option.mem_toList] at h
    rcases h with h | h
    · exact ⟨[], c :: cs, rfl, hfirst u h⟩
    · obtain ⟨before, rest, hcs, hfront⟩ := ih h
      refine ⟨c :: before, rest, by rw [hcs]; rfl, ?_⟩
      rw [Text.units_cons, ← Nat.add_assoc]
      exact hfront

lemma AtFront.range_eq {line column : Nat} {cs : List Char} {u : Usage}
    (h : AtFront line column cs u) : u.range.start = ⟨line, column⟩ := by
  obtain ⟨body, after, -, -, hrange⟩ := h
  rw [hrange]
  rfl

/-- A usage of a part of a line starts on that line and not before the part. -/
lemma start_of_mem_usagesFrom {line column skip : Nat} {cs : List Char} {u : Usage}
    (h : u ∈ usagesFrom line column skip cs) :
    u.range.start.line = line ∧ column ≤ u.range.start.character := by
  obtain ⟨before, rest, -, hfront⟩ := exists_atFront h
  rw [hfront.range_eq]
  exact ⟨rfl, Nat.le_add_right ..⟩

/-- Usages on a line are found from left to right. -/
lemma pairwise_usagesFrom (line column skip : Nat) (cs : List Char) :
    (usagesFrom line column skip cs).Pairwise fun u v => u.range.start.Precedes v.range.start := by
  induction cs generalizing column skip with
  | nil =>
    rw [usagesFrom]
    exact List.Pairwise.nil
  | cons c cs ih =>
    obtain ⟨first, skip', hstep, hfirst⟩ := usagesFrom_cons line column skip c cs
    rw [hstep, List.pairwise_append]
    refine ⟨?_, ih _ _, fun u hu v hv => ?_⟩
    · cases first <;> simp
    · -- What comes later starts behind this character, which is at least one unit wide.
      obtain ⟨hline, hcolumn⟩ := start_of_mem_usagesFrom hv
      have hwidth := Text.unitWidth_pos c
      have hlt : column < v.range.start.character := by omega
      rw [(hfirst u (Option.mem_toList.mp hu)).range_eq]
      exact .inr ⟨hline.symm, hlt⟩

/-! ## The usages of a document -/

/-- A usage is found in one of the lines. -/
lemma mem_usagesInLines {n : Nat} {ls : List (List Char)} {u : Usage}
    (h : u ∈ usagesInLines n ls) :
    ∃ i line, ls[i]? = some line ∧ u ∈ usagesFrom (n + i) 0 0 line := by
  induction ls generalizing n with
  | nil =>
    rw [usagesInLines] at h
    cases h
  | cons cs ls ih =>
    rw [usagesInLines, List.mem_append] at h
    rcases h with h | h
    · exact ⟨0, cs, rfl, h⟩
    · obtain ⟨i, line, hline, hu⟩ := ih h
      refine ⟨i + 1, line, hline, ?_⟩
      rw [Nat.add_comm i 1, ← Nat.add_assoc]
      exact hu

/-- Usages are found line by line. -/
lemma pairwise_usagesInLines (n : Nat) (ls : List (List Char)) :
    (usagesInLines n ls).Pairwise fun u v => u.range.start.Precedes v.range.start := by
  induction ls generalizing n with
  | nil =>
    rw [usagesInLines]
    exact List.Pairwise.nil
  | cons cs ls ih =>
    rw [usagesInLines, List.pairwise_append]
    refine ⟨pairwise_usagesFrom .., ih _, fun u hu v hv => .inl ?_⟩
    obtain ⟨i, line, -, hv⟩ := mem_usagesInLines hv
    rw [(start_of_mem_usagesFrom hu).1, (start_of_mem_usagesFrom hv).1]
    omega

/-- A usage of a document is what is written between two columns of one of its lines. -/
lemma exists_written {text : String} {u : Usage} (h : u ∈ usages text) :
    ∃ i before body after, (Text.lines text.toList)[i]? = some (before ++ body ++ after) ∧
      Written u.kind u.name u.fallback body ∧
      u.range = .onLine i (units before) (units (before ++ body)) := by
  obtain ⟨i, line, hline, hu⟩ := mem_usagesInLines h
  obtain ⟨before, rest, rfl, body, after, rfl, hwritten, hrange⟩ := exists_atFront hu
  refine ⟨i, before, body, after, by rw [hline, List.append_assoc], hwritten, ?_⟩
  rw [hrange, Text.units_append]
  simp

/-! ## Two scanners -/

/-- The matches of a pattern in a line from a column on, from left to right. A match tells a usage,
or none, and what follows it; no further match starts at the first `skip` characters. -/
def matchesFrom (match? : Nat → List Char → Option (Option Usage × List Char)) :
    (column skip : Nat) → List Char → List Usage
  | _, _, [] => []
  | column, skip + 1, c :: cs => matchesFrom match? (column + Text.unitWidth c) skip cs
  | column, 0, c :: cs =>
    match match? column (c :: cs) with
    | some (u, rest) =>
      u.toList ++ matchesFrom match? (column + Text.unitWidth c) (cs.length - rest.length) cs
    | none => matchesFrom match? (column + Text.unitWidth c) 0 cs

/-- The start of a call up to behind its variable. The call may turn out not to be closed. -/
def callMatch? (line column : Nat) (cs : List Char) : Option (Option Usage × List Char) :=
  (callHead? cs).map fun (name, rest) => (callUsage? line column cs name rest, rest)

/-- An alias. -/
def aliasMatch? (line column : Nat) (cs : List Char) : Option (Option Usage × List Char) :=
  (braced? cs).map fun (name, after) =>
    (some ⟨.reference, name, none, rangeUpTo line column cs after⟩, after)

/-- The calls in each line, and then the aliases in it. -/
def scannedInLines : (line : Nat) → List (List Char) → List Usage
  | _, [] => []
  | line, cs :: rest =>
    matchesFrom (callMatch? line) 0 0 cs ++ matchesFrom (aliasMatch? line) 0 0 cs ++
      scannedInLines (line + 1) rest

/-- Whether a usage starts where another does or before. -/
def startsBy (u v : Usage) : Bool :=
  u.range.start.line < v.range.start.line ||
    (u.range.start.line == v.range.start.line &&
      decide (u.range.start.character ≤ v.range.start.character))

/-- The usages that the two scanners find, sorted by their starts. -/
def scannedUsages (text : String) : List Usage :=
  (scannedInLines 0 (Text.lines text.toList)).mergeSort startsBy

/-- The start of a call up to behind its variable has no opening brace. -/
lemma brace_notMem_callHead {c : Char} {cs name rest : List Char}
    (h : callHead? (c :: cs) = some (name, rest)) :
    c ≠ '{' ∧ '{' ∉ cs.take (cs.length - rest.length) := by
  obtain ⟨gap, gap', hcs, hblanks, ⟨tail, rfl, -, htail⟩, hblanks'⟩ := callHead?_eq_some h
  have hgap : '{' ∉ gap := fun hmem => absurd (hblanks _ hmem) (by decide)
  have hgap' : '{' ∉ gap' := fun hmem => absurd (hblanks' _ hmem) (by decide)
  have hname : '{' ∉ tail := fun hmem => absurd (htail _ hmem) (by decide)
  obtain ⟨rfl, rfl⟩ : c = 'v' ∧
      cs = (['a', 'r', '('] ++ gap ++ '-' :: '-' :: tail ++ gap') ++ rest := List.cons.inj hcs
  refine ⟨by decide, ?_⟩
  rw [List.length_append, Nat.add_sub_cancel, List.take_left]
  simp [hgap, hgap', hname]

/-- Characters without an opening brace can be passed over in the search for aliases. -/
lemma matchesFrom_aliasMatch?_skip (line column : Nat) {skip : Nat} {cs : List Char}
    (h : '{' ∉ cs.take skip) :
    matchesFrom (aliasMatch? line) column skip cs =
      matchesFrom (aliasMatch? line) column 0 cs := by
  induction cs generalizing column skip with
  | nil => rw [matchesFrom, matchesFrom]
  | cons c cs ih =>
    cases skip with
    | zero => rfl
    | succ skip =>
      rw [List.take_succ_cons, List.mem_cons, not_or] at h
      have hnone : aliasMatch? line column (c :: cs) = none := by
        rw [aliasMatch?, braced?_eq_none (Ne.symm h.1), Option.map_none]
      rw [matchesFrom, matchesFrom, hnone]
      exact ih _ h.2

/-- Aliases can be sought at each character: behind its brace an alias has no other one. -/
lemma matchesFrom_aliasMatch?_cons (line column : Nat) (c : Char) (cs : List Char) :
    matchesFrom (aliasMatch? line) column 0 (c :: cs) =
      (bracedUsage? line column (c :: cs)).toList ++
        matchesFrom (aliasMatch? line) (column + Text.unitWidth c) 0 cs := by
  rw [matchesFrom, aliasMatch?, bracedUsage?]
  cases hbraced : braced? (c :: cs) with
  | none => rfl
  | some found =>
    obtain ⟨name, after⟩ := found
    obtain ⟨chars, -, hcs, -, hchars⟩ := braced?_eq_some hbraced
    have hname : '{' ∉ chars := fun hmem => absurd (hchars _ hmem) (by decide)
    obtain ⟨-, rfl⟩ : c = '{' ∧ cs = (chars ++ ['}']) ++ after := by
      simpa using hcs
    have hskip : '{' ∉ ((chars ++ ['}']) ++ after).take
        (((chars ++ ['}']) ++ after).length - after.length) := by
      rw [List.length_append, Nat.add_sub_cancel, List.take_left]
      simp [hname]
    simp only [Option.map_some]
    rw [matchesFrom_aliasMatch?_skip _ _ hskip]

/-- One scan of a line finds what the two scanners find, in another order. -/
lemma matchesFrom_perm_usagesFrom (line column : Nat) {skip : Nat} {cs : List Char}
    (h : '{' ∉ cs.take skip) :
    (matchesFrom (callMatch? line) column skip cs ++
      matchesFrom (aliasMatch? line) column 0 cs).Perm (usagesFrom line column skip cs) := by
  induction cs generalizing column skip with
  | nil =>
    rw [matchesFrom, matchesFrom, usagesFrom]
    exact List.Perm.nil
  | cons c cs ih =>
    rw [matchesFrom_aliasMatch?_cons]
    cases skip with
    | succ skip =>
      -- The character belongs to a call, so no alias starts here.
      rw [List.take_succ_cons, List.mem_cons, not_or] at h
      rw [matchesFrom, usagesFrom, bracedUsage?, braced?_eq_none (Ne.symm h.1)]
      exact ih _ h.2
    | zero =>
      rw [matchesFrom, usagesFrom, callMatch?]
      cases hhead : callHead? (c :: cs) with
      | some head =>
        obtain ⟨name, rest⟩ := head
        obtain ⟨hc, hskip⟩ := brace_notMem_callHead hhead
        rw [bracedUsage?, braced?_eq_none hc]
        simp only [Option.map_some, Option.map_none, Option.toList_none, List.nil_append,
          List.append_assoc]
        exact (ih _ hskip).append_left _
      | none =>
        exact (List.perm_append_comm_assoc ..).trans ((ih _ (by simp)).append_left _)

/-- Both scanners together find what the one scan finds, in some order. -/
lemma scannedInLines_perm (line : Nat) (ls : List (List Char)) :
    (scannedInLines line ls).Perm (usagesInLines line ls) := by
  induction ls generalizing line with
  | nil => exact List.Perm.nil
  | cons cs ls ih =>
    exact (matchesFrom_perm_usagesFrom line 0 (by simp)).append (ih _)

/-- Sorted by their starts, the usages that the two scanners find are those of one scan. -/
lemma scannedUsages_eq (text : String) : scannedUsages text = usages text := by
  refine mergeSort_eq_of_perm ?_ ?_ (scannedInLines_perm 0 _) ?_
  · intro u v w huv hvw
    simp only [startsBy, Bool.or_eq_true, Bool.and_eq_true, decide_eq_true_eq, beq_iff_eq] at *
    omega
  · intro u v
    simp only [startsBy, Bool.or_eq_true, Bool.and_eq_true, decide_eq_true_eq, beq_iff_eq]
    omega
  · refine (pairwise_usagesInLines 0 _).imp fun {u v} hprecedes => ?_
    rw [Position.Precedes] at hprecedes
    rw [← Bool.not_eq_true]
    simp only [startsBy, Bool.or_eq_true, Bool.and_eq_true, decide_eq_true_eq, beq_iff_eq]
    omega

/-- A line has no more units than the text has bytes, and its number is no larger than that. -/
lemma le_bytes_of_getElem? {text line : List Char} {i : Nat}
    (h : (Text.lines text)[i]? = some line) : i ≤ bytes text ∧ units line ≤ bytes text := by
  obtain ⟨hi, rfl⟩ := List.getElem?_eq_some_iff.mp h
  have hcount := Text.length_lines_le text
  have hlength := Text.length_le_bytes text
  have hline : ((Text.lines text)[i]).Sublist (Text.lines text).flatten :=
    List.sublist_flatten_of_mem (List.getElem_mem hi)
  rw [Text.flatten_lines] at hline
  exact ⟨by omega, (Text.units_le_of_sublist hline).trans (Text.units_le_bytes text)⟩

/-- Every usage of a document lies on one line of it, covers at least a unit, and is written there
between the columns of its range; and the usages come in the order of their starts. They are those
that a scanner for calls and one for aliases find together. The numbers fit into 32 bits if the
document has less than `2 ^ 32` bytes. -/
theorem usages_faithful (text : String) (hsize : bytes text.toList < 0x100000000) :
    scannedUsages text = usages text ∧
    (∀ u ∈ usages text, ∃ i before body after,
      (Text.lines text.toList)[i]? = some (before ++ body ++ after) ∧
      u.range = .onLine i (units before) (units (before ++ body)) ∧
      units before < units (before ++ body) ∧
      Written u.kind u.name u.fallback body ∧
      i < 0x100000000 ∧ units (before ++ body) < 0x100000000) ∧
    (usages text).Pairwise fun u v => u.range.start.Precedes v.range.start := by
  refine ⟨scannedUsages_eq text, fun u hu => ?_, pairwise_usagesInLines 0 _⟩
  obtain ⟨i, before, body, after, hline, hwritten, hrange⟩ := exists_written hu
  obtain ⟨hi, hunits⟩ := le_bytes_of_getElem? hline
  obtain ⟨c, rest, rfl⟩ := List.exists_cons_of_ne_nil hwritten.ne_nil
  have hwidth := Text.unitWidth_pos c
  have hgrows : units before < units (before ++ c :: rest) := by
    rw [Text.units_append, Text.units_cons]
    omega
  rw [Text.units_append] at hunits
  exact ⟨i, before, c :: rest, after, hline, hrange, hgrows, hwritten, by omega, by omega⟩

/-- Two lines, the first ended by a carriage return alone: a call in a call behind a character of
two units, a call that is not closed, and an alias. -/
def mixedText : String :=
  "a\r😀var( --x ,var(--y, )) \x7bk.l\x7d var(--z, \x7bm\x7d"

theorem usages_faithful_mixed :
    bytes mixedText.toList < 0x100000000 ∧
    usages mixedText =
      [⟨.cssVariable, "--x", some "var(--y, )", .onLine 1 2 23⟩,
        ⟨.cssVariable, "--y", none, .onLine 1 12 22⟩,
        ⟨.reference, "k.l", none, .onLine 1 24 29⟩,
        ⟨.reference, "m", none, .onLine 1 39 42⟩] ∧
    scannedUsages mixedText = usages mixedText ∧
    (∀ u ∈ usages mixedText, ∃ i before body after,
      (Text.lines mixedText.toList)[i]? = some (before ++ body ++ after) ∧
      u.range = .onLine i (units before) (units (before ++ body)) ∧
      units before < units (before ++ body) ∧
      Written u.kind u.name u.fallback body ∧
      i < 0x100000000 ∧ units (before ++ body) < 0x100000000) ∧
    (usages mixedText).Pairwise fun u v => u.range.start.Precedes v.range.start := by
  have hsize : bytes mixedText.toList < 0x100000000 := by decide +kernel
  exact ⟨hsize, by decide +kernel, usages_faithful mixedText hsize⟩

end Editor

end DesignTokens
