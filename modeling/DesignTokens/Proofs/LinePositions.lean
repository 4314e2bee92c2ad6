import DesignTokens.Proofs.KeyPositions
import DesignTokens.Proofs.UsageRanges

/-!
# Two ways to count lines

Tokens have positions by line feeds (`positionAfter`): only a line feed starts a new line. Usages,
and what is being typed, have positions by the lines of the document (`linePosition`), which end at
other characters too. `exists_place` says where in its lines an offset of a text is. From there the
two are compared line by line: a line that ends in a line feed takes both to the start of the next
line, any other only the second (`foldl_advance_ended`). So they agree at an offset exactly if all
lines before the offset's own end in a line feed (`positions_agree_iff`).
-/

namespace DesignTokens

namespace Text

/-! ## What lines look like -/

/-- The characters that end lines. -/
def lineBreaks : List Char :=
  ['\n', '\x0b', '\x0c', '\r', '\u0085', '\u2028', '\u2029']

lemma mem_lineBreaks {c : Char} (h : isLineBreak c = true) : c ∈ lineBreaks := by
  have hchar : ∀ d : Char, c.toNat = d.toNat → c = d := fun d hd =>
    Char.ext (UInt32.toNat_inj.mp hd)
  simp only [isLineBreak, Bool.or_eq_true, Bool.and_eq_true, decide_eq_true_eq,
    beq_iff_eq] at h
  have hcases : c.toNat = 0x0A ∨ c.toNat = 0x0B ∨ c.toNat = 0x0C ∨ c.toNat = 0x0D ∨
      c.toNat = 0x85 ∨ c.toNat = 0x2028 ∨ c.toNat = 0x2029 := by omega
  rcases hcases with h | h | h | h | h | h | h
  · rw [hchar '\n' h]
    decide
  · rw [hchar '\x0b' h]
    decide
  · rw [hchar '\x0c' h]
    decide
  · rw [hchar '\r' h]
    decide
  · rw [hchar '\u0085' h]
    decide
  · rw [hchar '\u2028' h]
    decide
  · rw [hchar '\u2029' h]
    decide

/-- A class of characters with no line break in it. -/
lemma isLineBreak_eq_false {p : Char → Bool} (hp : lineBreaks.any p = false) {c : Char}
    (hc : p c = true) : isLineBreak c = false := by
  by_contra hbreak
  have hmem := mem_lineBreaks (Bool.not_eq_false _ ▸ hbreak)
  exact List.any_eq_false.mp hp c hmem hc

/-- A line with its ending: no line feed stands before that. -/
def Ended (line : List Char) : Prop :=
  ∃ body c, line = body ++ [c] ∧ isLineBreak c = true ∧ '\n' ∉ body

/-- All lines but the last have an ending, and the last has no line feed. -/
inductive Lined : List (List Char) → Prop
  | last {line : List Char} (unfed : '\n' ∉ line) : Lined [line]
  | cons {line : List Char} {rest : List (List Char)} (ended : Ended line) (lined : Lined rest) :
      Lined (line :: rest)

/-- Lines stay lines with one more character, other than a line feed, in front of the first. -/
lemma Lined.consFirst {c : Char} (hc : c ≠ '\n') {ls : List (List Char)} (h : Lined ls) :
    Lined (consFirst c ls) := by
  cases h with
  | last unfed => exact .last (by simp [hc.symm, unfed])
  | cons ended lined =>
    obtain ⟨body, b, rfl, hb, hbody⟩ := ended
    exact .cons ⟨c :: body, b, rfl, hb, by simp [hc.symm, hbody]⟩ lined

/-- All lines of a text but the last have an ending. -/
lemma lined_lines (cs : List Char) : Lined (lines cs) := by
  induction cs with
  | nil => exact .last (by simp)
  | cons c cs ih =>
    rw [lines]
    split_ifs with hpair hbreak
    · exact ih.consFirst (by rw [hpair.1]; decide)
    · exact .cons ⟨[], c, rfl, hbreak, by simp⟩ ih
    · refine ih.consFirst fun hc => hbreak ?_
      rw [hc]
      decide

/-- Every line but the last is ended. -/
lemma Lined.ended_of_getElem? {ls : List (List Char)} (h : Lined ls) {i : Nat} {line : List Char}
    (hline : ls[i]? = some line) (hi : i + 1 ≠ ls.length) : Ended line := by
  induction h generalizing i with
  | last unfed =>
    obtain ⟨hlt, -⟩ := List.getElem?_eq_some_iff.mp hline
    simp only [List.length_cons, List.length_nil] at hlt hi
    omega
  | cons ended lined ih =>
    cases i with
    | zero =>
      cases hline
      exact ended
    | succ i => exact ih hline (by simpa using hi)

lemma Lined.ended_of_mem_take {ls : List (List Char)} (h : Lined ls) {i : Nat}
    (hi : i < ls.length) : ∀ line ∈ ls.take i, Ended line := by
  intro line hline
  obtain ⟨j, hj, rfl⟩ := List.mem_take_iff_getElem.mp hline
  exact h.ended_of_getElem? (List.getElem?_eq_getElem (by omega)) (by omega)

/-! ## Places in lines -/

/-- The position of an offset in lines, the first of which has the number `line`. -/
def placeIn : (line : Nat) → List (List Char) → (offset : Nat) → Position
  | line, [], _ => ⟨line, 0⟩
  | line, [cs], offset => ⟨line, units (cs.take offset)⟩
  | line, cs :: next :: rest, offset =>
    if offset < cs.length then ⟨line, units (cs.take offset)⟩
    else placeIn (line + 1) (next :: rest) (offset - cs.length)

/-- The position of an offset by the lines of a text: the number of the line it is in, and the units
since the start of that line. -/
def linePosition (text : List Char) (offset : Nat) : Position :=
  placeIn 0 (lines text) offset

/-- A part of a line, not all of it unless it is the last. -/
structure Place (ls : List (List Char)) (i : Nat) (pre post : List Char) : Prop where
  line : ls[i]? = some (pre ++ post)
  inside : post = [] → i + 1 = ls.length

/-- The position of a place is the number of its line and the units before it there. -/
lemma Place.placeIn_eq {ls : List (List Char)} {i : Nat} {pre post : List Char}
    (h : Place ls i pre post) (n : Nat) :
    placeIn n ls ((ls.take i).flatten ++ pre).length = ⟨n + i, units pre⟩ := by
  induction ls generalizing i n with
  | nil => cases h.line
  | cons cs rest ih =>
    cases i with
    | zero =>
      have hcs : cs = pre ++ post := Option.some.inj h.line
      cases rest with
      | nil => simp [placeIn, hcs]
      | cons next rest =>
        have hpost : post ≠ [] := fun hnil => by simpa using h.inside hnil
        have hlt : pre.length < cs.length := by
          rw [hcs, List.length_append]
          have := List.length_pos_of_ne_nil hpost
          omega
        rw [List.take_zero, List.flatten_nil, List.nil_append, placeIn, if_pos hlt, hcs,
          List.take_left, Nat.add_zero]
    | succ i =>
      have hrest : Place rest i pre post :=
        ⟨h.line, fun hnil => by simpa using h.inside hnil⟩
      cases rest with
      | nil => cases hrest.line
      | cons next rest =>
        have hlength : ((List.take (i + 1) (cs :: next :: rest)).flatten ++ pre).length =
            cs.length + ((List.take i (next :: rest)).flatten ++ pre).length := by
          simp
        rw [hlength, placeIn, if_neg (by omega), Nat.add_sub_cancel_left, ih hrest]
        congr 1
        omega

/-- Every offset of the text that lines make up has its place in one of them. -/
lemma exists_place {ls : List (List Char)} (hne : ls ≠ []) {before after : List Char}
    (h : ls.flatten = before ++ after) :
    ∃ i pre post, Place ls i pre post ∧ before = (ls.take i).flatten ++ pre := by
  induction ls generalizing before with
  | nil => exact absurd rfl hne
  | cons cs rest ih =>
    by_cases hinside : before.length < cs.length ∨ rest = []
    · -- The offset is in the first line.
      obtain ⟨post, hcs⟩ : before <+: cs := by
        rcases hinside with hlt | rfl
        · have hbefore : before <+: (cs :: rest).flatten := by simp [h]
          exact List.prefix_of_prefix_length_le hbefore (by simp) hlt.le
        · exact ⟨after, by simpa using h.symm⟩
      refine ⟨0, before, post, ⟨by simp [hcs], fun hnil => ?_⟩, by simp⟩
      rcases hinside with hlt | rfl
      · rw [← hcs, hnil, List.append_nil] at hlt
        exact absurd hlt (Nat.lt_irrefl _)
      · rfl
    · rw [not_or, Nat.not_lt] at hinside
      obtain ⟨before', rfl⟩ : cs <+: before :=
        List.prefix_of_prefix_length_le (by rw [← h]; simp) (List.prefix_append before after)
          hinside.1
      rw [List.flatten_cons, List.append_assoc, List.append_cancel_left_eq] at h
      obtain ⟨i, pre, post, hplace, rfl⟩ := ih hinside.2 h
      refine ⟨i + 1, pre, post, ⟨hplace.line, fun hnil => ?_⟩, by simp⟩
      rw [List.length_cons, hplace.inside hnil]

lemma Lined.ne_nil {ls : List (List Char)} (h : Lined ls) : ls ≠ [] := by
  cases h <;> simp

/-- The part of a line that stands before an offset in it has no line feed. -/
lemma Place.unfed {ls : List (List Char)} (hlined : Lined ls) {i : Nat} {pre post : List Char}
    (h : Place ls i pre post) : '\n' ∉ pre := by
  induction hlined generalizing i with
  | last unfed =>
    cases i with
    | zero =>
      rw [Option.some.inj h.line, List.mem_append, not_or] at unfed
      exact unfed.1
    | succ i => cases h.line
  | @cons line rest ended lined ih =>
    cases i with
    | zero =>
      obtain ⟨body, c, rfl, -, hbody⟩ := ended
      have hline : body ++ [c] = pre ++ post := Option.some.inj h.line
      have hpost : post ≠ [] := fun hnil => lined.ne_nil (by simpa using h.inside hnil)
      -- The ending is behind the offset.
      obtain ⟨post', d, rfl⟩ := List.eq_nil_or_concat post |>.resolve_left hpost
      rw [List.concat_eq_append, ← List.append_assoc] at hline
      rw [(List.append_inj_left' hline rfl), List.mem_append, not_or] at hbody
      exact hbody.1
    | succ i => exact ih ⟨h.line, fun hnil => by simpa using h.inside hnil⟩

/-- A text is what is before a line, the line, and what is behind it. -/
lemma flatten_of_getElem? {ls : List (List Char)} {i : Nat} {line : List Char}
    (h : ls[i]? = some line) :
    ls.flatten = (ls.take i).flatten ++ line ++ (ls.drop (i + 1)).flatten := by
  obtain ⟨hi, rfl⟩ := List.getElem?_eq_some_iff.mp h
  conv_lhs => rw [← List.take_append_drop i ls]
  rw [List.flatten_append, List.drop_eq_getElem_cons hi, List.flatten_cons, List.append_assoc]

/-- The last character is no end of a line. -/
def EndsPlain (cs : List Char) : Prop :=
  ∃ front d, cs = front ++ [d] ∧ isLineBreak d = false

lemma EndsPlain.append {cs : List Char} (h : EndsPlain cs) (lead : List Char) :
    EndsPlain (lead ++ cs) := by
  obtain ⟨front, d, rfl, hd⟩ := h
  exact ⟨lead ++ front, d, by rw [List.append_assoc], hd⟩

lemma endsPlain_of_forall {cs : List Char} (hne : cs ≠ [])
    (h : ∀ c ∈ cs, isLineBreak c = false) : EndsPlain cs :=
  ⟨cs.dropLast, cs.getLast hne, (List.dropLast_append_getLast hne).symm,
    h _ (List.getLast_mem hne)⟩

/-- A part of a line that ends in no line break reaches the end of the last line only. -/
lemma place_of_endsPlain {text : List Char} {i : Nat} {pre post : List Char}
    (hline : (lines text)[i]? = some (pre ++ post)) (hplain : EndsPlain pre) :
    Place (lines text) i pre post := by
  refine ⟨hline, fun hnil => ?_⟩
  by_contra hlast
  obtain ⟨body, c, hbody, hc, -⟩ := (lined_lines text).ended_of_getElem? hline hlast
  obtain ⟨front, d, rfl, hd⟩ := hplain
  rw [hnil, List.append_nil] at hbody
  have hsame : d = c := by simpa using (List.append_inj' hbody rfl).2
  rw [hsame, hc] at hd
  cases hd

/-- What stands in a line up to a character that is no line break has its position by lines. -/
lemma linePosition_of_line {text : List Char} {i : Nat} {before body after : List Char}
    (hline : (lines text)[i]? = some (before ++ body ++ after))
    (hplain : EndsPlain (before ++ body)) :
    ∃ lead tail, text = lead ++ body ++ tail ∧
      linePosition text lead.length = ⟨i, units before⟩ ∧
      linePosition text (lead ++ body).length = ⟨i, units (before ++ body)⟩ := by
  have hstop := place_of_endsPlain hline hplain
  have hstart : Place (lines text) i before (body ++ after) :=
    ⟨by rw [hline, List.append_assoc], fun hnil => hstop.inside (List.append_eq_nil_iff.mp hnil).2⟩
  refine ⟨((lines text).take i).flatten ++ before,
    after ++ ((lines text).drop (i + 1)).flatten, ?_, ?_, ?_⟩
  · have hflat := flatten_of_getElem? hline
    rw [flatten_lines] at hflat
    simpa only [List.append_assoc] using hflat
  · rw [linePosition, hstart.placeIn_eq, Nat.zero_add]
  · rw [linePosition, List.append_assoc, hstop.placeIn_eq, Nat.zero_add]

end Text

/-! ## Line feeds along lines -/

namespace TokenFile

open Text (units lines linePosition Ended)

/-- Without line feeds only the column moves. -/
lemma foldl_advance_of_notMem {cs : List Char} (h : '\n' ∉ cs) (p : Position) :
    cs.foldl advance p = ⟨p.line, p.character + units cs⟩ := by
  induction cs generalizing p with
  | nil => rfl
  | cons c cs ih =>
    rw [List.mem_cons, not_or] at h
    rw [List.foldl_cons, ih h.2, advance, if_neg (Ne.symm h.1), Text.units_cons, Nat.add_assoc]

/-- Over a line with its ending, the next line is come to only if the ending is a line feed. -/
lemma foldl_advance_ended {line : List Char} (h : Ended line) (p : Position) :
    line.foldl advance p =
      if line.getLast? = some '\n' then ⟨p.line + 1, 0⟩
      else ⟨p.line, p.character + units line⟩ := by
  obtain ⟨body, c, rfl, -, hbody⟩ := h
  rw [List.foldl_append, foldl_advance_of_notMem hbody, List.getLast?_concat]
  by_cases hc : c = '\n'
  · simp [advance, hc]
  · simp [advance, hc, Nat.add_assoc]

/-- The line number counts the line feeds. -/
lemma line_foldl_advance {ls : List (List Char)} (h : ∀ line ∈ ls, Ended line) (p : Position) :
    (ls.flatten.foldl advance p).line =
      p.line + ls.countP fun line => line.getLast? = some '\n' := by
  induction ls generalizing p with
  | nil => rfl
  | cons line ls ih =>
    obtain ⟨hline, hrest⟩ := List.forall_mem_cons.mp h
    rw [List.flatten_cons, List.foldl_append, ih hrest, foldl_advance_ended hline, List.countP_cons]
    by_cases hfeed : line.getLast? = some '\n'
    · simp only [hfeed, if_true, decide_true]
      omega
    · simp only [hfeed, if_false, decide_false, Bool.false_eq_true]
      omega

/-- Behind lines that all end in line feeds a position is at the start of the next line. -/
lemma foldl_advance_fed {ls : List (List Char)} (h : ∀ line ∈ ls, Ended line)
    (hfed : ∀ line ∈ ls, line.getLast? = some '\n') (n : Nat) :
    ls.flatten.foldl advance ⟨n, 0⟩ = ⟨n + ls.length, 0⟩ := by
  induction ls generalizing n with
  | nil => rfl
  | cons line ls ih =>
    obtain ⟨hline, hrest⟩ := List.forall_mem_cons.mp h
    obtain ⟨hfeed, hfed⟩ := List.forall_mem_cons.mp hfed
    rw [List.flatten_cons, List.foldl_append, foldl_advance_ended hline, if_pos hfeed,
      ih hrest hfed, List.length_cons, Nat.add_right_comm n, Nat.add_assoc]

/-- At an offset of a text the two positions agree exactly if all lines before its own end in a line
feed. -/
lemma positionAfter_eq_iff {text before after : List Char} (h : text = before ++ after) :
    positionAfter before = linePosition text before.length ↔
      ∀ line ∈ (lines text).take (linePosition text before.length).line,
        line.getLast? = some '\n' := by
  have hlined := Text.lined_lines text
  obtain ⟨i, pre, post, hplace, hbefore⟩ :=
    Text.exists_place hlined.ne_nil ((Text.flatten_lines text).trans h)
  have hposition : linePosition text before.length = ⟨i, units pre⟩ := by
    rw [hbefore, linePosition, hplace.placeIn_eq, Nat.zero_add]
  obtain ⟨hi, -⟩ := List.getElem?_eq_some_iff.mp hplace.line
  have hended := hlined.ended_of_mem_take hi
  have hlength : ((lines text).take i).length = i := List.length_take_of_le hi.le
  have hafter : positionAfter before =
      ⟨(((lines text).take i).flatten.foldl advance {}).line,
        (((lines text).take i).flatten.foldl advance {}).character + units pre⟩ := by
    rw [positionAfter, hbefore, List.foldl_append,
      foldl_advance_of_notMem (hplace.unfed hlined)]
  rw [hposition, hafter]
  constructor
  · intro heq line hline
    have hcount := congrArg Position.line heq
    rw [line_foldl_advance hended, Nat.zero_add] at hcount
    have hall := List.countP_eq_length.mp (hcount.trans hlength.symm)
    simpa using hall line hline
  · intro hfed
    rw [foldl_advance_fed hended hfed, hlength, Nat.zero_add, Nat.zero_add]

end TokenFile

/-! ## Positions of usages and of what is typed -/

namespace Editor

open Text (units lines linePosition EndsPlain isLineBreak)

/-- A usage ends in a character that ends no line. -/
lemma Written.endsPlain {kind : UsageKind} {name : String} {fallback : Option String}
    {body : List Char} (h : Written kind name fallback body) : EndsPlain body := by
  cases h with
  | @reference name _ => exact ⟨'{' :: name, '}', rfl, by decide⟩
  | call => exact ⟨_, ')', rfl, by decide⟩
  | @callWith gap name gap' argument =>
    exact ⟨['v', 'a', 'r', '('] ++ gap ++ name ++ gap' ++ ',' :: argument, ')', by simp, by decide⟩

/-- Usages have positions by lines. -/
lemma exists_linePosition_usage {text : String} {u : Usage} (h : u ∈ usages text) :
    ∃ lead body tail, text.toList = lead ++ body ++ tail ∧
      Written u.kind u.name u.fallback body ∧
      u.range = ⟨linePosition text.toList lead.length,
        linePosition text.toList (lead ++ body).length⟩ := by
  obtain ⟨i, before, body, after, hline, hwritten, hrange⟩ := exists_written h
  obtain ⟨lead, tail, htext, hstart, hstop⟩ :=
    Text.linePosition_of_line hline (hwritten.endsPlain.append before)
  refine ⟨lead, body, tail, htext, hwritten, ?_⟩
  rw [hrange, hstart, hstop]
  rfl

/-- What is typed stands at the end of the text, and the text does not end a line. -/
def TypedAtEnd (cs typed : List Char) : Prop :=
  (∃ lead, cs = lead ++ typed) ∧ EndsPlain cs

/-- A variable that is typed ends the text. -/
lemma typedAtEnd_variable {cs typed : List Char} (h : typedVariable? cs = some typed) :
    TypedAtEnd cs typed := by
  rw [typedVariable?] at h
  split at h
  · next name hstart =>
    split_ifs at h with hall
    cases h
    obtain ⟨gap, hcs, -⟩ := afterCallStart?_eq_some hstart
    refine ⟨⟨_, hcs⟩, ?_⟩
    rw [hcs]
    refine (Text.endsPlain_of_forall (List.cons_ne_nil _ _) fun c hc => ?_).append _
    have hvariable : isVariableChar c = true := by
      rcases List.mem_cons.mp hc with rfl | hc
      · decide
      · rcases List.mem_cons.mp hc with rfl | hc
        · decide
        · exact List.all_eq_true.mp hall c hc
    exact Text.isLineBreak_eq_false (by decide) hvariable
  · cases h

lemma typedAtEnd_alias {cs typed : List Char} (h : typedAlias? cs = some typed) :
    TypedAtEnd cs typed := by
  rw [typedAlias?.eq_def] at h
  split at h
  · next name =>
    split_ifs at h with hall
    cases h
    refine ⟨⟨['{'], rfl⟩, Text.endsPlain_of_forall (List.cons_ne_nil _ _) fun c hc => ?_⟩
    rcases List.mem_cons.mp hc with rfl | hc
    · decide
    · exact Text.isLineBreak_eq_false (by decide) (List.all_eq_true.mp hall c hc)
  · cases h

/-- What is found in a text ends it, if it ends the ending at which it starts. -/
lemma typedAtEnd_typedIn {start? : List Char → Option (List Char)} {cs typed : List Char}
    (hstart : ∀ {cs}, start? cs = some typed → TypedAtEnd cs typed)
    (h : typedIn start? cs = some typed) : TypedAtEnd cs typed := by
  induction cs with
  | nil => cases h
  | cons c cs ih =>
    rw [typedIn, Option.or_eq_some_iff] at h
    rcases h with h | ⟨-, h⟩
    · exact hstart h
    · obtain ⟨⟨lead, rfl⟩, hplain⟩ := ih h
      exact ⟨⟨c :: lead, rfl⟩, hplain.append [c]⟩

/-- What is being typed at the end of a part of a line has the columns of its place there. -/
lemma exists_typedAtEnd {i : Nat} {before : List Char} {typing : Typing}
    (h : typingAtEnd? i before = some typing) :
    ∃ lead, before = lead ++ typing.typed.toList ∧ EndsPlain before ∧
      typing.range = .onLine i (units lead) (units before) := by
  have hrange : ∀ {typed : List Char}, TypedAtEnd before typed →
      ∃ lead, before = lead ++ (String.ofList typed).toList ∧ EndsPlain before ∧
        Range.onLine i (units before - units typed) (units before) =
          .onLine i (units lead) (units before) := by
    rintro typed ⟨⟨lead, hlead⟩, hplain⟩
    refine ⟨lead, by rw [String.toList_ofList, hlead], hplain, ?_⟩
    rw [hlead, Text.units_append, Nat.add_sub_cancel]
  rw [typingAtEnd?] at h
  simp only at h
  split at h
  · next typed htyped =>
    cases h
    exact hrange (typedAtEnd_typedIn typedAtEnd_variable htyped)
  · obtain ⟨typed, htyped, rfl⟩ := Option.map_eq_some_iff.mp h
    exact hrange (typedAtEnd_typedIn typedAtEnd_alias htyped)

/-- What is being typed has a position by lines. -/
lemma exists_linePosition_typing {text : String} {p : Position} {typing : Typing}
    (h : completion? text p = some typing) :
    ∃ lead tail, text.toList = lead ++ typing.typed.toList ++ tail ∧
      typing.range = ⟨linePosition text.toList lead.length,
        linePosition text.toList (lead ++ typing.typed.toList).length⟩ := by
  rw [completion?] at h
  split at h
  · cases h
  · next line hline =>
    obtain ⟨before, hbefore, hplain, hrange⟩ := exists_typedAtEnd h
    have hsplit : (lines text.toList)[p.line]? = some (before ++ typing.typed.toList ++
        line.drop (Text.charsBefore p.character line)) := by
      rw [hline, ← hbefore, List.take_append_drop]
    rw [hbefore] at hplain hrange
    obtain ⟨lead, tail, htext, hstart, hstop⟩ := Text.linePosition_of_line hsplit hplain
    refine ⟨lead, tail, htext, ?_⟩
    rw [hrange, hstart, hstop]
    rfl

/-- The tokens of a file have positions by line feeds, its usages and what is typed in it positions
by lines. The first are found by line starts. At an offset of the file the two are the same exactly
if all lines that end before it end in a line feed, by itself or behind a carriage return. -/
theorem positions_agree_iff (text : String) :
    (∀ format options file, TokenFile.parse text format options = .ok file →
      ∀ t ∈ file.tokens, ∃ before after, text.toList = before ++ after ∧
        (⟨t.line, t.character⟩ : Position) = TokenFile.positionAfter before) ∧
    (∀ u ∈ usages text, ∃ lead body tail, text.toList = lead ++ body ++ tail ∧
      Written u.kind u.name u.fallback body ∧
      u.range = ⟨linePosition text.toList lead.length,
        linePosition text.toList (lead ++ body).length⟩) ∧
    (∀ p typing, completion? text p = some typing →
      ∃ lead tail, text.toList = lead ++ typing.typed.toList ++ tail ∧
        typing.range = ⟨linePosition text.toList lead.length,
          linePosition text.toList (lead ++ typing.typed.toList).length⟩) ∧
    ∀ before after, text.toList = before ++ after →
      (∀ format, (TokenFile.Locator.ofText format text.toList).position (Text.bytes before) =
        TokenFile.positionAfter before) ∧
      (TokenFile.positionAfter before = linePosition text.toList before.length ↔
        ∀ line ∈ (lines text.toList).take (linePosition text.toList before.length).line,
          line.getLast? = some '\n') := by
  refine ⟨fun format options file hparse t ht => ?_, fun u hu => exists_linePosition_usage hu,
    fun p typing htyping => exists_linePosition_typing htyping,
    fun before after htext => ⟨fun format => ?_, TokenFile.positionAfter_eq_iff htext⟩⟩
  · obtain ⟨fields, hread, rfl⟩ := TokenFile.parse_eq_ok hparse
    obtain ⟨d, hgives⟩ := TokenFile.exists_gives _ _ (TokenFile.sorted_readDocument hread) ht
    exact hgives.position
  · rw [htext, TokenFile.Locator.position_bytes]

/-- A token file of two lines with a reference in it, the first line ended as given. -/
def twoLines (ending : String) : String :=
  "\x7b" ++ ending ++ "\"a\":\x7b\"$value\":\"\x7bb\x7d\"\x7d\x7d"

/-- The fields of that file. -/
def twoLinesFields : Json.Fields :=
  [("a", .object [("$value", .string "\x7bb\x7d")])]

lemma parse_twoLines {ending : String}
    (hread : TokenFile.readDocument .json (twoLines ending) = .ok (.object twoLinesFields)) :
    TokenFile.parse (twoLines ending) .json {} =
      .ok (TokenFile.ofDocument (.object twoLinesFields) (twoLines ending) .json {}) := by
  rw [TokenFile.parse, hread]

/-- Lines that end in a carriage return and a line feed are the same for both. -/
theorem positions_agree_iff_paired :
    (∃ file t, TokenFile.parse (twoLines "\r\n") .json {} = .ok file ∧ t ∈ file.tokens ∧
      ∃ before after, (twoLines "\r\n").toList = before ++ after ∧
        (⟨t.line, t.character⟩ : Position) = TokenFile.positionAfter before) ∧
    (∃ u ∈ usages (twoLines "\r\n"), ∃ lead body tail,
      (twoLines "\r\n").toList = lead ++ body ++ tail ∧
      Written u.kind u.name u.fallback body ∧
      u.range = ⟨linePosition (twoLines "\r\n").toList lead.length,
        linePosition (twoLines "\r\n").toList (lead ++ body).length⟩) ∧
    (∃ typing, completion? (twoLines "\r\n") ⟨1, 17⟩ = some typing ∧
      ∃ lead tail, (twoLines "\r\n").toList = lead ++ typing.typed.toList ++ tail ∧
        typing.range = ⟨linePosition (twoLines "\r\n").toList lead.length,
          linePosition (twoLines "\r\n").toList (lead ++ typing.typed.toList).length⟩) ∧
    (TokenFile.Locator.ofText .json (twoLines "\r\n").toList).position 3 = ⟨1, 0⟩ ∧
    TokenFile.positionAfter ['{', '\r', '\n'] = linePosition (twoLines "\r\n").toList 3 := by
  have hread : TokenFile.readDocument .json (twoLines "\r\n") = .ok (.object twoLinesFields) := by
    cbv
  have hparse := parse_twoLines hread
  obtain ⟨htoken, husage, htyping, hagree⟩ := positions_agree_iff (twoLines "\r\n")
  obtain ⟨t, ht⟩ : ∃ t, t ∈ (TokenFile.ofDocument (.object twoLinesFields) (twoLines "\r\n")
      .json {}).tokens := List.exists_mem_of_length_pos (by decide +kernel)
  have hu : (⟨.reference, "b", none, .onLine 1 15 18⟩ : Usage) ∈ usages (twoLines "\r\n") := by
    decide +kernel
  have hcompletion : completion? (twoLines "\r\n") ⟨1, 17⟩ =
      some ⟨.reference, "b", .onLine 1 16 17⟩ := by
    decide +kernel
  refine ⟨⟨_, t, hparse, ht, htoken _ _ _ hparse t ht⟩, ⟨_, hu, husage _ hu⟩,
    ⟨_, hcompletion, htyping _ _ hcompletion⟩, ?_⟩
  have htext : (twoLines "\r\n").toList =
      ['{', '\r', '\n'] ++ (twoLines "\r\n").toList.drop 3 := by
    decide +kernel
  obtain ⟨hlocator, hsame⟩ := hagree _ _ htext
  exact ⟨(hlocator .json).trans (by decide), hsame.mpr (by decide +kernel)⟩

/-- A carriage return alone ends a line for usages and none for tokens: of one line, the token is
said to be on the first and the reference in it on the second. -/
theorem carriage_return_unseen :
    ∃ file t, TokenFile.parse (twoLines "\r") .json {} = .ok file ∧ file.tokens = [t] ∧
      (⟨t.line, t.character⟩ : Position) = TokenFile.positionAfter ['{', '\r'] ∧
      TokenFile.positionAfter ['{', '\r'] = ⟨0, 2⟩ ∧
      (TokenFile.Locator.ofText .json (twoLines "\r").toList).position 2 = ⟨0, 2⟩ ∧
      linePosition (twoLines "\r").toList 2 = ⟨1, 0⟩ ∧
      usages (twoLines "\r") = [⟨.reference, "b", none, .onLine 1 15 18⟩] := by
  have hread : TokenFile.readDocument .json (twoLines "\r") = .ok (.object twoLinesFields) := by
    cbv
  have hparse := parse_twoLines hread
  have hplaces : (TokenFile.ofDocument (.object twoLinesFields) (twoLines "\r") .json
      {}).tokens.map (fun t => (⟨t.line, t.character⟩ : Position)) = [⟨0, 2⟩] := by
    decide +kernel
  obtain ⟨t, htokens, hplace⟩ := List.map_eq_singleton_iff.mp hplaces
  have htext : (twoLines "\r").toList = ['{', '\r'] ++ (twoLines "\r").toList.drop 2 := by
    decide +kernel
  have hlocator : (TokenFile.Locator.ofText .json (twoLines "\r").toList).position 2 = ⟨0, 2⟩ := by
    rw [htext]
    exact TokenFile.Locator.position_bytes .json ['{', '\r'] _
  exact ⟨_, t, hparse, htokens, hplace, by decide, hlocator, by decide +kernel, by decide +kernel⟩

end Editor

end DesignTokens
