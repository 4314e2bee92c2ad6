import DesignTokens.Proofs.KeyOffsets
import DesignTokens.Proofs.KeySpellings

/-!
# Tokens stand at their keys

The position of a token says where in its file the token is: so many line feeds before, and so many
UTF-16 units since the last of them. It is found by seeking the key from the spot of the group on,
which is the same by offsets and line starts (`Gives.position_eq`). The first place found may be
another than the one at which the group has that key, and then the places below are sought from
there; but it is never behind it (`keySpot_json`). So along the walk through a document the keys
that are still to be found stand behind the spot (`Reached.placed`), and every search finds a
spelling of its key (`tokens_at_keys`).
-/

namespace DesignTokens

namespace TokenFile

open Json (Value Fields quoted Spells SpelledIn)

/-! ## Seeking -/

/-- A key is spelled in JSON between quotes. -/
lemma startsWithAny_json (key : String) (cs : List Char) :
    startsWithAny (spellings .json key) cs = true ↔ quoted key <+: cs := by
  simp [startsWithAny, spellings, quoted]

/-- A key that stands somewhere behind a spot is found: a spelling of it stands at the new spot,
and what is behind any spelling of it is behind the new spot. -/
lemma keySpot_json {spot : Spot} {key : String}
    (hkey : ∃ before rest, spot.rest = before ++ (quoted key ++ rest)) :
    quoted key <+: (keySpot .json key spot).rest ∧
      ∀ before rest, spot.rest = before ++ (quoted key ++ rest) →
        rest <:+ (keySpot .json key spot).rest := by
  have hseek : ∀ before rest, spot.rest = before ++ (quoted key ++ rest) →
      ∃ found, spot.seek? (spellings .json key) = some found ∧ quoted key ++ rest <:+ found.rest :=
    fun before rest hrest =>
      exists_seekFrom ⟨before, hrest.symm⟩
        ((startsWithAny_json key _).mpr (List.prefix_append ..))
  obtain ⟨before₀, rest₀, hrest₀⟩ := hkey
  obtain ⟨found, hfound, -⟩ := hseek before₀ rest₀ hrest₀
  obtain ⟨-, -, -, hstarts, -⟩ := seekFrom_eq_some hfound
  rw [keySpot, hfound, Option.getD_some]
  refine ⟨(startsWithAny_json key _).mp hstarts, fun before rest hrest => ?_⟩
  obtain ⟨found', hfound', hsuffix⟩ := hseek before rest hrest
  cases hfound.symm.trans hfound'
  exact (List.suffix_append ..).trans hsuffix

/-! ## Spots along the walk -/

section Walk

variable {c : Context} {text : List Char} {doc : Fields}

/-- The offset of what is at a path: each key is sought from the offset of the one above. -/
def Locator.offsetAt (l : Locator) (path : List String) : Nat :=
  path.foldl l.keyOffset 0

/-- The offset of a declared token: that of its path, and for a group's own token that of its key.
A marker is at its group. -/
def Declaration.offset (l : Locator) (d : Declaration) : Nat :=
  match d.kind with
  | .root => l.keyOffset (l.offsetAt d.path) "$root"
  | _ => l.offsetAt d.path

/-- Every group is reached at the offset of its path, whatever the format. -/
lemma Reached.at {path : List String} {type : Option String} {spot : Spot} {fields : Fields}
    (h : Reached c text doc path type spot fields) :
    spot.At text ((Locator.ofText c.format text).offsetAt path) := by
  induction h with
  | document => exact at_start text
  | child _ _ ih =>
    rw [Locator.offsetAt, List.foldl_append]
    exact ih.keySpot _ _

/-- Every token has the position of a spot at its offset. -/
lemma Gives.at {d : Declaration} {t : Token} (h : Gives c text doc d t) :
    ∃ spot : Spot, spot.At text (d.offset (Locator.ofText c.format text)) ∧
      (⟨t.line, t.character⟩ : Position) = spot.position := by
  cases h with
  | node above mem _ => exact ⟨_, (above.child mem).at, rfl⟩
  | extension reached => exact ⟨_, reached.at, rfl⟩
  | root reached => exact ⟨_, reached.at.keySpot _ _, rfl⟩

/-- Every token has the position that its offset has by the line starts. -/
lemma Gives.position_eq {d : Declaration} {t : Token} (h : Gives c text doc d t) :
    (⟨t.line, t.character⟩ : Position) =
      (Locator.ofText c.format text).position (d.offset (Locator.ofText c.format text)) := by
  obtain ⟨spot, hspot, hposition⟩ := h.at
  rw [hposition, hspot.position_eq c.format]

/-- Every token has the position of a place of the text. -/
lemma Gives.position {d : Declaration} {t : Token} (h : Gives c text doc d t) :
    ∃ before after, text = before ++ after ∧
      (⟨t.line, t.character⟩ : Position) = positionAfter before := by
  obtain ⟨spot, ⟨before, htext, -, hplace⟩, hposition⟩ := h.at
  exact ⟨before, spot.rest, htext, hposition.trans hplace⟩

/-- A spot that is fit for a group: it is at a spelling of the group's key, and the keys of all that
is in the group stand behind it. -/
structure Placed (path : List String) (spot : Spot) (fields : Fields) : Prop where
  spelled : ∀ key, path.getLast? = some key → quoted key <+: spot.rest
  below : SpelledIn spot.rest (.object fields)

/-- The key of a group's field is found from the group's spot on. -/
lemma Placed.keySpot {path : List String} {spot : Spot} {fields : Fields}
    (h : Placed path spot fields) {key : String} {inner : Fields}
    (hget : (Value.object fields).get? key = some (.object inner)) :
    Placed (path ++ [key]) (keySpot .json key spot) inner := by
  have hspells : ∀ tail w, (Value.object inner).at? tail = some w →
      Spells spot.rest (key :: tail) := by
    intro tail w hw
    refine h.below (key :: tail) w ?_
    rw [Value.at?, hget, Option.bind_some, hw]
  obtain ⟨before, rest, hrest, -⟩ := hspells [] _ rfl
  obtain ⟨hstarts, hbehind⟩ := keySpot_json ⟨before, rest, hrest⟩
  refine ⟨fun last hlast => ?_, fun tail w hw => ?_⟩
  · rw [List.getLast?_concat, Option.some.injEq] at hlast
    rw [← hlast]
    exact hstarts
  · obtain ⟨before', rest', hrest', htail⟩ := hspells tail w hw
    exact htail.of_suffix (hbehind before' rest' hrest')

lemma placed_document (hspelled : SpelledIn text (.object doc)) :
    Placed [] (.start text) doc :=
  ⟨fun _ hlast => absurd hlast (by simp), hspelled⟩

/-- Every group is reached at a spot that is fit for it. -/
lemma Reached.placed (hjson : c.format = .json) (hdoc : (Value.object doc).Sorted)
    (hspelled : SpelledIn text (.object doc)) {path : List String} {type : Option String}
    {spot : Spot} {fields : Fields} (h : Reached c text doc path type spot fields) :
    Placed path spot fields := by
  induction h with
  | document => exact placed_document hspelled
  | child above mem ih =>
    rw [hjson]
    cases (above.at?_eq hdoc).2 with
    | object keys _ => exact ih.keySpot (keys.get?_of_mem mem)

/-- The key at which a declared token stands: the last of its path, and that of the group's own
token. A marker stands at its group. -/
def Declaration.key? (d : Declaration) : Option String :=
  match d.kind with
  | .root => some "$root"
  | _ => d.path.getLast?

/-- The token has the position of a place in the text where its key stands between quotes. -/
def StandsAtKey (text : List Char) (d : Declaration) (t : Token) : Prop :=
  ∃ key before after, d.key? = some key ∧ text = before ++ ('"' :: key.toList ++ '"' :: after) ∧
    t.line = before.count '\n' ∧ t.character = Text.units (Text.lastLine before)

/-- A token whose spot is at a spelling of its key stands there. -/
lemma standsAtKey_of_at {spot : Spot} {offset : Nat} (hspot : spot.At text offset) {key : String}
    (hkey : quoted key <+: spot.rest) {d : Declaration} (hd : d.key? = some key) {t : Token}
    (hline : t.line = spot.position.line) (hcharacter : t.character = spot.position.character) :
    StandsAtKey text d t := by
  obtain ⟨before, htext, -, hposition⟩ := hspot
  obtain ⟨after, hafter⟩ := hkey
  refine ⟨key, before, after, hd, ?_, ?_, ?_⟩
  · rw [htext, ← hafter, quoted]
    simp
  · rw [hline, hposition, positionAfter_eq]
  · rw [hcharacter, hposition, positionAfter_eq]

lemma Gives.standsAtKey (hjson : c.format = .json) (hdoc : (Value.object doc).Sorted)
    (hspelled : SpelledIn text (.object doc)) {d : Declaration} {t : Token}
    (h : Gives c text doc d t) : StandsAtKey text d t := by
  cases h with
  | @node path _ _ _ _ key above mem _ =>
    have hplaced := (above.child mem).placed hjson hdoc hspelled
    have hlast : (path ++ [key]).getLast? = some key := List.getLast?_concat
    have hkey : (⟨path ++ [key], .node⟩ : Declaration).key? = some key := hlast
    exact standsAtKey_of_at (above.child mem).at (hplaced.spelled key hlast) hkey rfl rfl
  | @extension path _ _ _ _ reached below _ =>
    have hplaced := reached.placed hjson hdoc hspelled
    have hlast := List.getLast?_eq_some_getLast below
    have hkey : (⟨path, .extension⟩ : Declaration).key? = some (path.getLast below) := hlast
    exact standsAtKey_of_at reached.at (hplaced.spelled _ hlast) hkey rfl rfl
  | root reached stated _ =>
    have hplaced := (reached.placed hjson hdoc hspelled).keySpot stated
    rw [← hjson] at hplaced
    have hlast := hplaced.spelled rootKey List.getLast?_concat
    exact standsAtKey_of_at (reached.at.keySpot _ _) hlast rfl rfl rfl

end Walk

/-- A position in a text of less than `2 ^ 32` bytes is a pair of 32-bit numbers. -/
lemma StandsAtKey.lt {text : List Char} {d : Declaration} {t : Token} {bound : Nat}
    (h : StandsAtKey text d t) (hsize : Text.bytes text < bound) :
    t.line < bound ∧ t.character < bound := by
  obtain ⟨key, before, after, -, htext, hline, hcharacter⟩ := h
  have hle := positionAfter_le before
  rw [positionAfter_eq] at hle
  rw [htext, Text.bytes_append] at hsize
  have hbound := Nat.lt_of_le_of_lt (Nat.le_add_right ..) hsize
  rw [hline, hcharacter]
  exact ⟨hle.1.trans_lt hbound, hle.2.trans_lt hbound⟩

/-- In every JSON file without backslashes the tokens are those that the document declares, one by
one, and each stands at a spelling of its key: the last key of the path of a node, that of the
group for a marker, and `$root` for a group's own token. Its position is found by line starts from
the offset that seeking its keys leads to. -/
theorem tokens_at_keys {content : String} {options : Options} {file : TokenFile}
    (hparse : parse content .json options = .ok file) (hplain : '\\' ∉ content.toList)
    (hsize : Text.bytes content.toList < 0x100000000) :
    ∃ fields declarations,
      readDocument .json content = .ok (.object fields) ∧
      declarations.Pairwise Declaration.Before ∧
      (∀ d, d ∈ declarations ↔ Declared ⟨options, file.version, .json⟩ (.object fields) d) ∧
      List.Forall₂ (Declares ⟨options, file.version, .json⟩ (.object fields)) declarations
        file.tokens ∧
      List.Forall₂ (fun d t => StandsAtKey content.toList d t ∧
        t.line < 0x100000000 ∧ t.character < 0x100000000 ∧
        (⟨t.line, t.character⟩ : Position) = (Locator.ofText .json content.toList).position
          (d.offset (Locator.ofText .json content.toList))) declarations file.tokens := by
  obtain ⟨fields, hread, rfl⟩ := parse_eq_ok hparse
  have hsorted := sorted_readDocument hread
  have hspelled : SpelledIn content.toList (.object fields) := by
    rw [readDocument] at hread
    cases hvalue : Value.parse content with
    | error e =>
      rw [hvalue] at hread
      cases hread
    | ok v =>
      rw [hvalue] at hread
      cases hread
      exact Json.spells_of_parse hvalue hplain
  let c : Context := ⟨options, Version.detect (.object fields) options.version, .json⟩
  refine ⟨fields, fieldDeclarations c fields, hread, pairwise_fieldDeclarations c hsorted rfl,
    mem_fieldDeclarations c hsorted rfl, declares_groupTokens c _ hsorted, ?_⟩
  refine (gives_groupTokens c content.toList hsorted).imp fun d t hgives => ?_
  have hstands := hgives.standsAtKey rfl hsorted hspelled
  obtain ⟨hline, hcharacter⟩ := hstands.lt hsize
  exact ⟨hstands, hline, hcharacter, hgives.position_eq⟩

/-- The name of a group stands in the text before its key does, and one of its keys stands there
twice, behind a character of two units. -/
def echoedText : String :=
  "\x7b\"$description\":\"g\",\n\"g\":\x7b\"$extends\":\"😀\",\"x\":\x7b\x7d," ++
    "\"$root\":\x7b\"$value\":\"1\"\x7d,\"x\":\x7b\"$value\":\"2\"\x7d\x7d\x7d"

/-- The fields of that document. -/
def echoedFields : Fields :=
  [("$description", .string "g"),
    ("g", .object [("$extends", .string "😀"), ("$root", .object [("$value", .string "1")]),
      ("x", .object [("$value", .string "2")])])]

lemma parse_echoedText :
    parse echoedText .json {} = .ok (ofDocument (.object echoedFields) echoedText .json {}) := by
  have hread : readDocument .json echoedText = .ok (.object echoedFields) := by cbv
  rw [parse, hread]

theorem tokens_at_keys_echoed :
    parse echoedText .json {} = .ok (ofDocument (.object echoedFields) echoedText .json {}) ∧
    '\\' ∉ echoedText.toList ∧ Text.bytes echoedText.toList < 0x100000000 ∧
    ∃ fields declarations,
      readDocument .json echoedText = .ok (.object fields) ∧
      declarations.Pairwise Declaration.Before ∧
      (∀ d, d ∈ declarations ↔
        Declared ⟨{}, (ofDocument (.object echoedFields) echoedText .json {}).version, .json⟩
          (.object fields) d) ∧
      List.Forall₂
        (Declares ⟨{}, (ofDocument (.object echoedFields) echoedText .json {}).version, .json⟩
          (.object fields))
        declarations (ofDocument (.object echoedFields) echoedText .json {}).tokens ∧
      List.Forall₂ (fun d t => StandsAtKey echoedText.toList d t ∧
        t.line < 0x100000000 ∧ t.character < 0x100000000 ∧
        (⟨t.line, t.character⟩ : Position) = (Locator.ofText .json echoedText.toList).position
          (d.offset (Locator.ofText .json echoedText.toList)))
        declarations (ofDocument (.object echoedFields) echoedText .json {}).tokens := by
  have hplain : '\\' ∉ echoedText.toList := by decide +kernel
  have hsize : Text.bytes echoedText.toList < 0x100000000 := by decide +kernel
  exact ⟨parse_echoedText, hplain, hsize, tokens_at_keys parse_echoedText hplain hsize⟩

/-- The marker stands at the name of the group that is no key, the others behind it. -/
example : (ofDocument (.object echoedFields) echoedText .json {}).tokens.map
    (fun t => (t.line, t.character)) = [(0, 16), (1, 28), (1, 21)] := by
  decide +kernel

end TokenFile

end DesignTokens
