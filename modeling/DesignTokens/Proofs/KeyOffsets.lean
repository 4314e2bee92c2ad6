import DesignTokens.TokenFile
import Mathlib.Data.List.Count
import Mathlib.Data.List.GetD
import Mathlib.Data.List.Permutation

/-!
# Positions by line starts

The walk through a document carries spots, each with its position. The same positions can be had
from byte offsets (`Locator`): the offset of a key is sought in the text from the offset of its
group on, and the line of an offset is found by bisection in the list of the offsets at which lines
start. Both ways agree: a place of the text has one position (`Locator.position_bytes`), and a spot
at an offset is moved to the offset that is found (`Spot.At.keySpot`).
-/

namespace DesignTokens

namespace Text

/-- The part of a text after its last line feed. -/
def lastLine (s : List Char) : List Char :=
  (s.reverse.takeWhile (· != '\n')).reverse

/-- One more character ends the last line or belongs to it. -/
lemma lastLine_concat (s : List Char) (c : Char) :
    lastLine (s ++ [c]) = if c = '\n' then [] else lastLine s ++ [c] := by
  rw [lastLine, List.reverse_concat, List.takeWhile_cons]
  by_cases hc : c = '\n'
  · simp [hc]
  · simp [hc, lastLine]

lemma lastLine_sublist (s : List Char) : (lastLine s).Sublist s := by
  have h : (s.reverse.takeWhile (· != '\n')).Sublist s.reverse := List.takeWhile_sublist _
  simpa [lastLine] using h.reverse

/-! ## Slices by bytes -/

/-- The text from a byte offset on, if that is between two characters. -/
def dropBytes? : Nat → List Char → Option (List Char)
  | 0, cs => some cs
  | _ + 1, [] => none
  | n + 1, c :: cs => if n + 1 < c.utf8Size then none else dropBytes? (n + 1 - c.utf8Size) cs

/-- The text before a byte offset, if that is between two characters. -/
def takeBytes? : Nat → List Char → Option (List Char)
  | 0, _ => some []
  | _ + 1, [] => none
  | n + 1, c :: cs =>
    if n + 1 < c.utf8Size then none else (takeBytes? (n + 1 - c.utf8Size) cs).map (c :: ·)

/-- The text between two byte offsets. -/
def slice? (start stop : Nat) (text : List Char) : Option (List Char) :=
  (dropBytes? start text).bind (takeBytes? (stop - start))

/-- A character has bytes, and those after it are the bytes of the rest. -/
lemma exists_bytes_cons (c : Char) (cs : List Char) :
    ∃ n, bytes (c :: cs) = n + 1 ∧ ¬ n + 1 < c.utf8Size ∧ n + 1 - c.utf8Size = bytes cs := by
  have hpos := c.utf8Size_pos
  refine ⟨c.utf8Size + bytes cs - 1, ?_, ?_, ?_⟩
  · rw [bytes]
    omega
  · omega
  · omega

lemma dropBytes?_bytes (before after : List Char) :
    dropBytes? (bytes before) (before ++ after) = some after := by
  induction before with
  | nil => rw [bytes, dropBytes?, List.nil_append]
  | cons c before ih =>
    obtain ⟨n, hbytes, hsize, hrest⟩ := exists_bytes_cons c before
    rw [hbytes, List.cons_append, dropBytes?, if_neg hsize, hrest, ih]

lemma takeBytes?_bytes (before after : List Char) :
    takeBytes? (bytes before) (before ++ after) = some before := by
  induction before with
  | nil => rw [bytes, takeBytes?]
  | cons c before ih =>
    obtain ⟨n, hbytes, hsize, hrest⟩ := exists_bytes_cons c before
    rw [hbytes, List.cons_append, takeBytes?, if_neg hsize, hrest, ih, Option.map_some]

/-- The slice between the offsets of two places is what stands between them. -/
lemma slice?_bytes (front middle after : List Char) :
    slice? (bytes front) (bytes (front ++ middle)) (front ++ middle ++ after) = some middle := by
  rw [slice?, List.append_assoc, dropBytes?_bytes, Option.bind_some, bytes_append,
    Nat.add_sub_cancel_left, takeBytes?_bytes]

/-- The byte offset at which a text stands first in another. -/
def firstIn? (needle : List Char) : List Char → Option Nat
  | [] => if needle.isPrefixOf [] then some 0 else none
  | c :: cs =>
    if needle.isPrefixOf (c :: cs) then some 0
    else (firstIn? needle cs).map (c.utf8Size + ·)

/-! ## Bisection -/

/-- The number of elements of a list that fit, if those that fit come first: halves the part
between `lo` and `hi` in which the last of them must be. -/
def partitionPoint (fits : Nat → Bool) (xs : List Nat) (lo hi : Nat) : Nat :=
  if lo < hi then
    if fits (xs.getD ((lo + hi) / 2) 0) then partitionPoint fits xs ((lo + hi) / 2 + 1) hi
    else partitionPoint fits xs lo ((lo + hi) / 2)
  else lo
termination_by hi - lo

/-- The search ends between the elements that fit and the others. -/
lemma partitionPoint_append {fits : Nat → Bool} {low high : List Nat}
    (hlow : ∀ x ∈ low, fits x = true) (hhigh : ∀ x ∈ high, fits x = false) {lo hi : Nat}
    (hlo : lo ≤ low.length) (hhi : low.length ≤ hi) (hsize : hi ≤ (low ++ high).length) :
    partitionPoint fits (low ++ high) lo hi = low.length := by
  fun_induction partitionPoint fits (low ++ high) lo hi with
  | case1 lo hi hlt hfits ih =>
    -- The element in the middle fits, so it is one of the first.
    refine ih ?_ hhi hsize
    by_contra hge
    have hmem : (low ++ high).getD ((lo + hi) / 2) 0 ∈ high := by
      rw [List.getD_append_right _ _ _ _ (by omega), List.getD_eq_getElem _ _ (by
        rw [List.length_append] at hsize
        omega)]
      exact List.getElem_mem _
    rw [hhigh _ hmem] at hfits
    cases hfits
  | case2 lo hi hlt hfits ih =>
    have hmid : low.length ≤ (lo + hi) / 2 := by
      by_contra hlt'
      have hmem : (low ++ high).getD ((lo + hi) / 2) 0 ∈ low := by
        rw [List.getD_append _ _ _ _ (by omega), List.getD_eq_getElem _ _ (by omega)]
        exact List.getElem_mem _
      exact hfits (hlow _ hmem)
    exact ih hlo hmid (by omega)
  | case3 lo hi hlt => omega

end Text

namespace TokenFile

/-! ## Positions -/

lemma positionAfter_concat (before : List Char) (c : Char) :
    positionAfter (before ++ [c]) = advance (positionAfter before) c := by
  rw [positionAfter, List.foldl_append]
  rfl

/-- A position counts the line feeds before it, and the units since the last of them. -/
lemma positionAfter_eq (before : List Char) :
    positionAfter before = ⟨before.count '\n', Text.units (Text.lastLine before)⟩ := by
  induction before using List.reverseRecOn with
  | nil => rfl
  | append_singleton before c ih =>
    rw [positionAfter_concat, ih, advance, Text.lastLine_concat, List.count_append]
    by_cases hc : c = '\n'
    · simp [hc]
    · have hcount : List.count '\n' [c] = 0 := by simp [hc]
      simp [hc, hcount]

/-- A position is no larger than the text before it. -/
lemma positionAfter_le (before : List Char) :
    (positionAfter before).line ≤ Text.bytes before ∧
      (positionAfter before).character ≤ Text.bytes before := by
  rw [positionAfter_eq]
  constructor
  · exact (List.count_le_length ..).trans (Text.length_le_bytes before)
  · exact (Text.units_le_of_sublist (Text.lastLine_sublist before)).trans
      (Text.units_le_bytes before)

/-! ## The locator -/

/-- The offsets behind the line feeds of a text that itself stands at an offset. -/
def startsFrom : (offset : Nat) → List Char → List Nat
  | _, [] => []
  | offset, c :: cs =>
    if c = '\n' then (offset + 1) :: startsFrom (offset + 1) cs
    else startsFrom (offset + c.utf8Size) cs

/-- A text, with the byte offsets at which its lines start. -/
structure Locator where
  text : List Char
  format : Format
  lineStarts : List Nat

namespace Locator

/-- The locator of a text. -/
def ofText (format : Format) (text : List Char) : Locator :=
  ⟨text, format, 0 :: startsFrom 0 text⟩

/-- The least offset, from one on, at which a key is spelled. -/
def findKey? (l : Locator) (key : String) (start : Nat) : Option Nat :=
  (Text.dropBytes? start l.text).bind fun rest =>
    (((spellings l.format key).filterMap fun s => Text.firstIn? s rest).min?).map (start + ·)

/-- The offset of a key, sought from that of its group; the group's own if there is none. -/
def keyOffset (l : Locator) (start : Nat) (key : String) : Nat :=
  (l.findKey? key start).getD start

/-- The position of an offset: the last line that starts there or before, and the units from its
start on. -/
def position (l : Locator) (offset : Nat) : Position :=
  let line := Text.partitionPoint (· ≤ offset) l.lineStarts 0 l.lineStarts.length - 1
  let start := l.lineStarts.getD line 0
  ⟨line, ((Text.slice? start offset l.text).map Text.units).getD 0⟩

end Locator

lemma startsFrom_append (offset : Nat) (a b : List Char) :
    startsFrom offset (a ++ b) =
      startsFrom offset a ++ startsFrom (offset + Text.bytes a) b := by
  induction a generalizing offset with
  | nil => rfl
  | cons c a ih =>
    have hfeed : '\n'.utf8Size = 1 := by decide
    rw [List.cons_append, startsFrom, startsFrom, Text.bytes]
    split_ifs with hc
    · rw [ih, hc, hfeed, List.cons_append, Nat.add_assoc]
    · rw [ih, Nat.add_assoc]

/-- There is one line start for each line feed. -/
lemma length_startsFrom (offset : Nat) (cs : List Char) :
    (startsFrom offset cs).length = cs.count '\n' := by
  induction cs generalizing offset with
  | nil => rfl
  | cons c cs ih =>
    rw [startsFrom, List.count_cons]
    split_ifs with hc hc' hc'
    · rw [List.length_cons, ih]
    · simp [hc] at hc'
    · simp [hc] at hc'
    · rw [ih, Nat.add_zero]

/-- Lines start behind the start of a text, and not behind its end. -/
lemma mem_startsFrom {offset start : Nat} {cs : List Char} (h : start ∈ startsFrom offset cs) :
    offset < start ∧ start ≤ offset + Text.bytes cs := by
  induction cs generalizing offset with
  | nil => cases h
  | cons c cs ih =>
    have hpos := c.utf8Size_pos
    have hfeed : '\n'.utf8Size = 1 := by decide
    rw [startsFrom] at h
    rw [Text.bytes]
    split_ifs at h with hc
    · rw [hc, hfeed]
      rcases List.mem_cons.mp h with rfl | h
      · omega
      · have hmem := ih h
        omega
    · have hmem := ih h
      omega

/-- The last line of a text starts behind its last line feed. -/
lemma exists_lastLine (cs : List Char) :
    ∃ front, cs = front ++ Text.lastLine cs ∧
      (0 :: startsFrom 0 cs).getLast (by simp) = Text.bytes front := by
  induction cs using List.reverseRecOn with
  | nil => exact ⟨[], rfl, rfl⟩
  | append_singleton cs c ih =>
    obtain ⟨front, hcs, hlast⟩ := ih
    by_cases hc : c = '\n'
    · refine ⟨cs ++ [c], by rw [Text.lastLine_concat, if_pos hc, List.append_nil], ?_⟩
      have hfeed : '\n'.utf8Size = 1 := by decide
      simp [startsFrom_append, startsFrom, hc, Text.bytes_append, Text.bytes, hfeed]
    · refine ⟨front, ?_, ?_⟩
      · rw [Text.lastLine_concat, if_neg hc, ← List.append_assoc, ← hcs]
      · simpa [startsFrom_append, startsFrom, hc] using hlast

/-- The lines that start up to a place, and those that start behind it. -/
lemma lineStarts_append (before after : List Char) :
    0 :: startsFrom 0 (before ++ after) =
      (0 :: startsFrom 0 before) ++ startsFrom (Text.bytes before) after := by
  rw [startsFrom_append, Nat.zero_add, List.cons_append]

/-- Bisection counts the lines that start up to a place. -/
lemma partitionPoint_lineStarts (before after : List Char) :
    Text.partitionPoint (· ≤ Text.bytes before) (0 :: startsFrom 0 (before ++ after)) 0
      (0 :: startsFrom 0 (before ++ after)).length = (0 :: startsFrom 0 before).length := by
  rw [lineStarts_append]
  refine Text.partitionPoint_append ?_ ?_ (Nat.zero_le _) ?_ (Nat.le_refl _)
  · intro x hx
    rcases List.mem_cons.mp hx with rfl | hx
    · simp
    · have hle := (mem_startsFrom hx).2
      simpa using hle
  · intro x hx
    have hlt := (mem_startsFrom hx).1
    simpa using hlt
  · rw [List.length_append]
    exact Nat.le_add_right ..

/-- The position of the offset of a place is the one of the place. -/
lemma Locator.position_bytes (format : Format) (before after : List Char) :
    (ofText format (before ++ after)).position (Text.bytes before) = positionAfter before := by
  obtain ⟨front, hbefore, hlast⟩ := exists_lastLine before
  have hlength : (0 :: startsFrom 0 before).length = before.count '\n' + 1 := by
    rw [List.length_cons, length_startsFrom]
  have hline : (0 :: startsFrom 0 before).length - 1 = before.count '\n' := by
    rw [hlength, Nat.add_sub_cancel]
  have hstart : (0 :: startsFrom 0 (before ++ after)).getD (before.count '\n') 0 =
      Text.bytes front := by
    rw [lineStarts_append, List.getD_append _ _ _ _ (by omega), ← hlast,
      List.getLast_eq_getElem, List.getD_eq_getElem _ _ (by omega)]
    simp only [hline]
  have hslice : Text.slice? (Text.bytes front) (Text.bytes before) (before ++ after) =
      some (Text.lastLine before) := by
    have h := Text.slice?_bytes front (Text.lastLine before) after
    rwa [← hbefore] at h
  rw [positionAfter_eq, position, ofText]
  simp only [partitionPoint_lineStarts, hline, hstart, hslice, Option.map_some, Option.getD_some]

/-! ## Seeking -/

/-- The least of several numbers that are all increased. -/
lemma min?_map_add (k : Nat) (xs : List Nat) :
    (xs.map (k + ·)).min? = xs.min?.map (k + ·) := by
  induction xs with
  | nil => rfl
  | cons x xs ih =>
    rw [List.map_cons, List.min?_cons, List.min?_cons, ih]
    cases xs.min? with
    | none => rfl
    | some m => simp [Nat.add_min_add_left]

/-- A spelling that stands at the start is found there. -/
lemma min?_firstIn?_of_starts {ss : List (List Char)} {cs : List Char}
    (h : startsWithAny ss cs = true) :
    (ss.filterMap fun s => Text.firstIn? s cs).min? = some 0 := by
  obtain ⟨s, hs, hstarts⟩ := List.any_eq_true.mp h
  refine List.min?_eq_some_iff.mpr ⟨List.mem_filterMap.mpr ⟨s, hs, ?_⟩, fun _ _ => Nat.zero_le _⟩
  cases cs with
  | nil => rw [Text.firstIn?, if_pos hstarts]
  | cons c cs => rw [Text.firstIn?, if_pos hstarts]

/-- Spellings of which none stands at the start are sought from the next character on. -/
lemma min?_firstIn?_cons {ss : List (List Char)} {c : Char} {cs : List Char}
    (h : ¬ startsWithAny ss (c :: cs) = true) :
    (ss.filterMap fun s => Text.firstIn? s (c :: cs)).min? =
      (ss.filterMap fun s => Text.firstIn? s cs).min?.map (c.utf8Size + ·) := by
  rw [← min?_map_add, List.map_filterMap]
  congr 1
  refine List.filterMap_congr fun s hs => ?_
  rw [Text.firstIn?, if_neg]
  exact fun hstarts => h (List.any_eq_true.mpr ⟨s, hs, hstarts⟩)

/-- What is found stands at the spot that is given, and no spelling stands before it. -/
lemma seekFrom_eq_some {ss : List (List Char)} {p : Position} {cs : List Char} {spot : Spot}
    (h : seekFrom ss p cs = some spot) :
    ∃ before, cs = before ++ spot.rest ∧ spot.position = before.foldl advance p ∧
      startsWithAny ss spot.rest = true ∧
      (ss.filterMap fun s => Text.firstIn? s cs).min? = some (Text.bytes before) := by
  induction cs generalizing p with
  | nil =>
    rw [seekFrom] at h
    split_ifs at h with hstarts
    cases h
    exact ⟨[], rfl, rfl, hstarts, min?_firstIn?_of_starts hstarts⟩
  | cons c cs ih =>
    rw [seekFrom] at h
    split_ifs at h with hstarts
    · cases h
      exact ⟨[], rfl, rfl, hstarts, min?_firstIn?_of_starts hstarts⟩
    · obtain ⟨before, hcs, hposition, hrest, hmin⟩ := ih h
      refine ⟨c :: before, by rw [hcs]; rfl, hposition, hrest, ?_⟩
      rw [min?_firstIn?_cons hstarts, hmin]
      rfl

/-- Where nothing is found, no spelling stands. -/
lemma min?_firstIn?_of_seekFrom {ss : List (List Char)} {p : Position} {cs : List Char}
    (h : seekFrom ss p cs = none) : (ss.filterMap fun s => Text.firstIn? s cs).min? = none := by
  induction cs generalizing p with
  | nil =>
    rw [seekFrom] at h
    split_ifs at h with hstarts
    rw [List.min?_eq_none_iff, List.filterMap_eq_nil_iff]
    intro s hs
    rw [Text.firstIn?, if_neg]
    exact fun hbegins => hstarts (List.any_eq_true.mpr ⟨s, hs, hbegins⟩)
  | cons c cs ih =>
    rw [seekFrom] at h
    split_ifs at h with hstarts
    rw [min?_firstIn?_cons hstarts, ih h, Option.map_none]

/-- Something is found, and not behind any place where a spelling stands. -/
lemma exists_seekFrom {ss : List (List Char)} {p : Position} {cs tail : List Char}
    (htail : tail <:+ cs) (hstarts : startsWithAny ss tail = true) :
    ∃ spot, seekFrom ss p cs = some spot ∧ tail <:+ spot.rest := by
  induction cs generalizing p with
  | nil =>
    have hnil := List.suffix_nil.mp htail
    subst hnil
    exact ⟨⟨p, []⟩, by rw [seekFrom, if_pos hstarts], htail⟩
  | cons c cs ih =>
    rw [seekFrom]
    by_cases hhere : startsWithAny ss (c :: cs) = true
    · exact ⟨⟨p, c :: cs⟩, if_pos hhere, htail⟩
    · rw [if_neg hhere]
      rcases List.suffix_cons_iff.mp htail with rfl | htail
      · exact absurd hstarts hhere
      · exact ih htail

/-! ## Spots at offsets -/

/-- The spot stands at a byte offset of the text, with the position it has there. -/
def Spot.At (text : List Char) (offset : Nat) (spot : Spot) : Prop :=
  ∃ before, text = before ++ spot.rest ∧ offset = Text.bytes before ∧
    spot.position = positionAfter before

lemma at_start (text : List Char) : (Spot.start text).At text 0 :=
  ⟨[], rfl, rfl, rfl⟩

/-- The position of a spot is that of its offset. -/
lemma Spot.At.position_eq {text : List Char} {offset : Nat} {spot : Spot}
    (h : spot.At text offset) (format : Format) :
    spot.position = (Locator.ofText format text).position offset := by
  obtain ⟨before, rfl, rfl, hposition⟩ := h
  rw [hposition, Locator.position_bytes]

/-- A key is sought from a spot as it is from the offset of the spot. -/
lemma Spot.At.keySpot {text : List Char} {offset : Nat} {spot : Spot} (h : spot.At text offset)
    (format : Format) (key : String) :
    (keySpot format key spot).At text ((Locator.ofText format text).keyOffset offset key) := by
  have hat := h
  obtain ⟨lead, htext, rfl, hposition⟩ := h
  have hfind : (Locator.ofText format text).findKey? key (Text.bytes lead) =
      (((spellings format key).filterMap fun s => Text.firstIn? s spot.rest).min?).map
        (Text.bytes lead + ·) := by
    simp only [Locator.findKey?, Locator.ofText, htext, Text.dropBytes?_bytes, Option.bind_some]
  rw [TokenFile.keySpot, Locator.keyOffset, hfind]
  cases hseek : spot.seek? (spellings format key) with
  | none =>
    rw [min?_firstIn?_of_seekFrom hseek]
    exact hat
  | some found =>
    obtain ⟨before, hbefore, hplace, -, hmin⟩ := seekFrom_eq_some hseek
    rw [hmin]
    refine ⟨lead ++ before, ?_, (Text.bytes_append ..).symm, ?_⟩
    · rw [htext, hbefore, List.append_assoc]
      rfl
    · rw [positionAfter, List.foldl_append]
      exact hplace.trans (by rw [hposition]; rfl)

end TokenFile

end DesignTokens
