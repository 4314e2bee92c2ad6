import DesignTokens.TokenFile
import Mathlib.Data.List.Basic

/-!
# Documents have their keys in order

Every object of a document that was read, in JSON or in YAML, has different keys in increasing order
(`Json.Value.Sorted`, `TokenFile.sorted_readDocument`): the readers put the fields of an object in
their places one by one (`Json.Fields.insert`). The order of keys is that of their bytes in UTF-8
(`Text.utf8_lt`).
-/

namespace DesignTokens

/-! ## The order of texts and of their bytes -/

namespace Text

/-- The bytes of a text in UTF-8. -/
def utf8 (s : String) : List UInt8 :=
  s.toUTF8.data.toList

/-- The bytes of a text are those of its characters. -/
lemma utf8_eq (s : String) : utf8 s = s.toList.flatMap String.utf8EncodeChar := by
  have h : s.toUTF8 = s.toList.utf8Encode := by
    rw [← String.toByteArray_ofList, String.ofList_toList]
    rfl
  rw [utf8, h, List.utf8Encode, List.data_toByteArray]

lemma ofNat_lt_ofNat {m n : Nat} (hm : m < 256) (hn : n < 256) :
    UInt8.ofNat m < UInt8.ofNat n ↔ m < n := by
  rw [UInt8.lt_iff_toNat_lt, UInt8.toNat_ofNat', UInt8.toNat_ofNat', Nat.mod_eq_of_lt hm,
    Nat.mod_eq_of_lt hn]

lemma ofNat_eq_ofNat {m n : Nat} (hm : m < 256) (hn : n < 256) :
    UInt8.ofNat m = UInt8.ofNat n ↔ m = n := by
  rw [← UInt8.toNat_inj, UInt8.toNat_ofNat', UInt8.toNat_ofNat', Nat.mod_eq_of_lt hm,
    Nat.mod_eq_of_lt hn]

/-- A smaller character has smaller bytes, whatever follows. -/
lemma utf8EncodeChar_lt {c d : Char} (h : c < d) (cs ds : List UInt8) :
    String.utf8EncodeChar c ++ cs < String.utf8EncodeChar d ++ ds := by
  have hlt : c.val.toNat < d.val.toNat := h
  have hmax : d.val.toNat < 0x110000 := by
    rcases d.valid with hd | hd
    · omega
    · exact hd.2
  unfold String.utf8EncodeChar
  generalize c.val.toNat = m, d.val.toNat = n at hlt hmax
  -- After the mark of its length an encoding has the digits of the code point in base 64.
  have htwo : ∀ k : Nat, k / 4096 = k / 64 / 64 := fun k => by omega
  have hthree : ∀ k : Nat, k / 262144 = k / 64 / 64 / 64 := fun k => by omega
  simp only [htwo, hthree]
  split_ifs
  all_goals
    simp (disch := omega) only [List.cons_append, List.nil_append, List.cons_lt_cons_iff,
      ofNat_lt_ofNat, ofNat_eq_ofNat]
  all_goals omega

/-- The order of texts is the order of their bytes. -/
lemma utf8_lt {s t : String} (h : s < t) : utf8 s < utf8 t := by
  have hchars : List.Lex (· < ·) s.toList t.toList := h
  rw [utf8_eq, utf8_eq]
  generalize s.toList = cs, t.toList = ds at hchars
  induction hchars with
  | @nil d ds =>
    have hne : (d :: ds).flatMap String.utf8EncodeChar ≠ [] := by
      rw [List.flatMap_cons]
      exact List.append_ne_nil_of_left_ne_nil String.utf8EncodeChar_ne_nil _
    obtain ⟨b, bs, hbs⟩ := List.exists_cons_of_ne_nil hne
    rw [hbs]
    exact List.Lex.nil
  | rel hcd =>
    rw [List.flatMap_cons, List.flatMap_cons]
    exact utf8EncodeChar_lt hcd _ _
  | cons _ ih =>
    rw [List.flatMap_cons, List.flatMap_cons]
    exact List.append_left_lt ih

end Text

/-! ## Objects -/

namespace Json

/-- The keys increase. -/
def Fields.Increasing (fields : Fields) : Prop :=
  (fields.map Prod.fst).Pairwise (· < ·)

/-- A value in which the keys of every object increase. -/
inductive Value.Sorted : Value → Prop
  | null : Sorted .null
  | bool (b : Bool) : Sorted (.bool b)
  | number (n : Number) : Sorted (.number n)
  | string (s : String) : Sorted (.string s)
  | array {items : List Value} (items_sorted : ∀ v ∈ items, Sorted v) : Sorted (.array items)
  | object {fields : Fields} (keys : fields.Increasing) (values : ∀ e ∈ fields, Sorted e.2) :
      Sorted (.object fields)

namespace Fields

/-- A field of the object after an insertion is the new one or was there. -/
lemma mem_insert {key : String} {value : Value} {fields : Fields} {e : String × Value}
    (h : e ∈ insert key value fields) : e = (key, value) ∨ e ∈ fields := by
  induction fields with
  | nil => exact .inl (List.mem_singleton.mp h)
  | cons entry rest ih =>
    obtain ⟨k, v⟩ := entry
    rw [insert] at h
    split_ifs at h
    · exact (List.mem_cons.mp h).imp_right (List.mem_cons_of_mem _)
    · exact List.mem_cons.mp h
    · rcases List.mem_cons.mp h with rfl | h
      · exact .inr (List.mem_cons_self ..)
      · exact (ih h).imp_right (List.mem_cons_of_mem _)

/-- The first key of sorted fields is smaller than all others. -/
lemma increasing_cons {key : String} {value : Value} {fields : Fields} :
    Increasing ((key, value) :: fields) ↔ (∀ e ∈ fields, key < e.1) ∧ fields.Increasing := by
  rw [Increasing, List.map_cons, List.pairwise_cons, List.forall_mem_map]
  rfl

/-- Inserting a field keeps the keys in order. -/
lemma Increasing.insert {fields : Fields} (h : fields.Increasing) (key : String) (value : Value) :
    (insert key value fields).Increasing := by
  induction fields with
  | nil => exact List.pairwise_singleton _ _
  | cons entry rest ih =>
    obtain ⟨k, v⟩ := entry
    obtain ⟨hk, hrest⟩ := increasing_cons.mp h
    rw [Fields.insert]
    split_ifs with heq hlt
    · exact increasing_cons.mpr ⟨heq ▸ hk, hrest⟩
    · refine increasing_cons.mpr ⟨fun e he => ?_, h⟩
      rcases List.mem_cons.mp he with rfl | he
      · exact hlt
      · exact String.lt_trans hlt (hk e he)
    · have hkey : k < key := by
        rw [← String.not_le]
        exact fun hle => heq (String.le_antisymm hle (String.not_lt.mp hlt))
      refine increasing_cons.mpr ⟨fun e he => ?_, ih hrest⟩
      rcases mem_insert he with rfl | he
      · exact hkey
      · exact hk e he

/-- Fields put one by one into their places. -/
lemma foldl_insert {entries : List (String × Value)} (hentries : ∀ e ∈ entries, e.2.Sorted)
    {fields : Fields} (hkeys : fields.Increasing) (hvalues : ∀ e ∈ fields, e.2.Sorted) :
    (Value.object (entries.foldl (fun fields e => insert e.1 e.2 fields) fields)).Sorted := by
  induction entries generalizing fields with
  | nil => exact .object hkeys hvalues
  | cons entry entries ih =>
    obtain ⟨hentry, hentries⟩ := List.forall_mem_cons.mp hentries
    refine ih hentries (hkeys.insert ..) fun e he => ?_
    rcases mem_insert he with rfl | he
    · exact hentry
    · exact hvalues e he

/-- A value that is found belongs to a field. -/
lemma mem_of_get? {key : String} {value : Value} {fields : Fields}
    (h : get? key fields = some value) : (key, value) ∈ fields := by
  induction fields with
  | nil => cases h
  | cons entry rest ih =>
    obtain ⟨k, v⟩ := entry
    rw [get?] at h
    split_ifs at h with hk
    · cases h
      rw [hk]
      exact List.mem_cons_self ..
    · exact List.mem_cons_of_mem _ (ih h)

/-- A field is found by its key. -/
lemma Increasing.get?_of_mem {fields : Fields} (h : fields.Increasing) {key : String}
    {value : Value} (hmem : (key, value) ∈ fields) : get? key fields = some value := by
  induction fields with
  | nil => cases hmem
  | cons entry rest ih =>
    obtain ⟨k, v⟩ := entry
    obtain ⟨hk, hrest⟩ := increasing_cons.mp h
    rw [get?]
    rcases List.mem_cons.mp hmem with heq | hmem
    · cases heq
      rw [if_pos rfl]
    · have hlt : k < key := hk _ hmem
      rw [if_neg, ih hrest hmem]
      rintro rfl
      exact String.lt_irrefl k hlt

end Fields

/-- An object that is made of sorted values is sorted. -/
lemma Value.sorted_ofFields {entries : List (String × Value)} (h : ∀ e ∈ entries, e.2.Sorted) :
    (Value.ofFields entries).Sorted :=
  Fields.foldl_insert h List.Pairwise.nil (by simp)

/-! ## Reading JSON -/

lemma map_eq_ok {ε α β : Type} {f : α → β} {x : Except ε α} {b : β} (h : x.map f = .ok b) :
    ∃ a, x = .ok a ∧ f a = b := by
  cases x with
  | error e => cases h
  | ok a =>
    cases h
    exact ⟨a, rfl, rfl⟩

lemma eq_or_eq_of_ite {α : Type} {p : Prop} [Decidable p] {a b c : α}
    (h : (if p then a else b) = c) : a = c ∨ b = c := by
  split_ifs at h
  · exact .inl h
  · exact .inr h

/-- What the readers of values, items and fields give is sorted. -/
structure ReadsSorted (fuel : Nat) : Prop where
  value : ∀ {depth s v r}, readValue fuel depth s = .ok (v, r) → v.Sorted
  items : ∀ {depth first s vs r}, readItems fuel depth first s = .ok (vs, r) → ∀ v ∈ vs, v.Sorted
  item : ∀ {depth s vs r}, readItem fuel depth s = .ok (vs, r) → ∀ v ∈ vs, v.Sorted
  fields : ∀ {depth first s fs r}, readFields fuel depth first s = .ok (fs, r) →
    ∀ e ∈ fs, e.2.Sorted
  field : ∀ {depth s fs r}, readField fuel depth s = .ok (fs, r) → ∀ e ∈ fs, e.2.Sorted

namespace ReadsSorted

lemma zero : ReadsSorted 0 where
  value h := by
    rw [readValue] at h
    cases h
  items h := by
    rw [readItems] at h
    cases h
  item h := by
    rw [readItem] at h
    cases h
  fields h := by
    rw [readFields] at h
    cases h
  field h := by
    rw [readField] at h
    cases h

variable {fuel : Nat}

/-- A value that is read is a scalar, or made of sorted values. -/
lemma value_succ (ih : ReadsSorted fuel) {depth : Nat} {s : List Char} {v : Value} {r : List Char}
    (h : readValue (fuel + 1) depth s = .ok (v, r)) : v.Sorted := by
  rw [readValue] at h
  split at h
  · cases h
  -- The first character decides what is read; only arrays and objects hold values.
  rcases eq_or_eq_of_ite h with h | h
  · obtain ⟨a, -, ha⟩ := map_eq_ok h
    cases ha
    exact .null
  rcases eq_or_eq_of_ite h with h | h
  · obtain ⟨a, -, ha⟩ := map_eq_ok h
    cases ha
    exact .bool _
  rcases eq_or_eq_of_ite h with h | h
  · obtain ⟨a, -, ha⟩ := map_eq_ok h
    cases ha
    exact .bool _
  rcases eq_or_eq_of_ite h with h | h
  · obtain ⟨a, -, ha⟩ := map_eq_ok h
    cases ha
    exact .number _
  rcases eq_or_eq_of_ite h with h | h
  · obtain ⟨a, -, ha⟩ := map_eq_ok h
    cases ha
    exact .number _
  rcases eq_or_eq_of_ite h with h | h
  · obtain ⟨a, -, ha⟩ := map_eq_ok h
    cases ha
    exact .string _
  rcases eq_or_eq_of_ite h with h | h
  · rcases eq_or_eq_of_ite h with h | h
    · cases h
    obtain ⟨a, hitems, ha⟩ := map_eq_ok h
    cases ha
    exact .array (ih.items hitems)
  rcases eq_or_eq_of_ite h with h | h
  · rcases eq_or_eq_of_ite h with h | h
    · cases h
    obtain ⟨a, hfields, ha⟩ := map_eq_ok h
    cases ha
    exact Value.sorted_ofFields (ih.fields hfields)
  · cases h

lemma items_succ (ih : ReadsSorted fuel) {depth : Nat} {first : Bool} {s : List Char}
    {vs : List Value} {r : List Char} (h : readItems (fuel + 1) depth first s = .ok (vs, r)) :
    ∀ v ∈ vs, v.Sorted := by
  rw [readItems] at h
  split at h
  · cases h
  split_ifs at h
  · cases h
    simp
  · exact ih.item h
  · split at h
    · cases h
    split_ifs at h
    exact ih.item h

lemma item_succ (ih : ReadsSorted fuel) {depth : Nat} {s : List Char} {vs : List Value}
    {r : List Char} (h : readItem (fuel + 1) depth s = .ok (vs, r)) : ∀ v ∈ vs, v.Sorted := by
  rw [readItem] at h
  split at h
  · cases h
  · next v r' hvalue =>
    obtain ⟨a, hitems, ha⟩ := map_eq_ok h
    cases ha
    exact List.forall_mem_cons.mpr ⟨ih.value hvalue, ih.items hitems⟩

/-- The values of the fields that are read are sorted. -/
lemma fields_succ (ih : ReadsSorted fuel) {depth : Nat} {first : Bool} {s : List Char}
    {fs : List (String × Value)} {r : List Char}
    (h : readFields (fuel + 1) depth first s = .ok (fs, r)) : ∀ e ∈ fs, e.2.Sorted := by
  rw [readFields] at h
  split at h
  · cases h
  split_ifs at h
  · cases h
    simp
  · exact ih.field h
  · split at h
    · cases h
    split_ifs at h
    exact ih.field h

lemma field_succ (ih : ReadsSorted fuel) {depth : Nat} {s : List Char}
    {fs : List (String × Value)} {r : List Char} (h : readField (fuel + 1) depth s = .ok (fs, r)) :
    ∀ e ∈ fs, e.2.Sorted := by
  rw [readField] at h
  split at h
  · cases h
  split at h
  · cases h
  split_ifs at h
  split at h
  · cases h
  · next v r' hvalue =>
    obtain ⟨a, hfields, ha⟩ := map_eq_ok h
    cases ha
    exact List.forall_mem_cons.mpr ⟨ih.value hvalue, ih.fields hfields⟩

end ReadsSorted

/-- One unit of fuel more, and the readers still give sorted values. -/
lemma readsSorted (fuel : Nat) : ReadsSorted fuel := by
  induction fuel with
  | zero => exact .zero
  | succ fuel ih =>
    exact ⟨ih.value_succ, ih.items_succ, ih.item_succ, ih.fields_succ, ih.field_succ⟩

/-- A document that is parsed is sorted. -/
lemma Value.sorted_parse {text : String} {v : Value} (h : Value.parse text = .ok v) : v.Sorted := by
  unfold Value.parse readDocument at h
  split at h
  · cases h
  · next v' r hvalue =>
    split at h
    · cases h
      exact (readsSorted _).value hvalue
    · cases h

end Json

/-! ## Reading YAML -/

namespace Yaml

/-- The JSON value of a YAML value is sorted, and so are those of items and entries. -/
lemma sorted_toJson :
    (∀ v : Value, ∀ j, v.toJson = .ok j → j.Sorted) ∧
      (∀ entries, ∀ fs, entriesToJson entries = .ok fs → ∀ e ∈ fs, e.2.Sorted) ∧
      ∀ items, ∀ js, itemsToJson items = .ok js → ∀ j ∈ js, j.Sorted := by
  apply Value.toJson.mutual_induct
    (fun v => ∀ j, v.toJson = .ok j → j.Sorted)
    (fun entries => ∀ fs, entriesToJson entries = .ok fs → ∀ e ∈ fs, e.2.Sorted)
    (fun items => ∀ js, itemsToJson items = .ok js → ∀ j ∈ js, j.Sorted)
  -- Scalars.
  · rintro j ⟨⟩
    exact .null
  · rintro b j ⟨⟩
    exact .bool b
  · rintro n j ⟨⟩
    exact .number _
  · rintro d j ⟨⟩
    exact .number _
  · intro r hr j h
    rw [Value.toJson] at h
    · cases h
      exact .null
    · exact hr
  · rintro s j ⟨⟩
    exact .string s
  -- A sequence, a mapping and a tagged value: what is in them is sorted.
  · intro items vs hvs ih j h
    simp only [Value.toJson, hvs] at h
    cases h
    exact .array (ih vs hvs)
  · intro items e he _ j h
    simp only [Value.toJson, he] at h
    cases h
  · intro entries fs hfs ih j h
    simp only [Value.toJson, hfs] at h
    cases h
    exact Json.Value.sorted_ofFields (ih fs hfs)
  · intro entries e he _ j h
    simp only [Value.toJson, he] at h
    cases h
  · intro tag v inner hinner ih j h
    simp only [Value.toJson, hinner] at h
    cases h
    refine .object (List.pairwise_singleton _ _) fun e he => ?_
    rw [List.mem_singleton.mp he]
    exact ih inner hinner
  · intro tag v e he _ j h
    simp only [Value.toJson, he] at h
    cases h
  -- Items.
  · rintro js ⟨⟩
    simp
  · intro v vs e he _ js h
    simp only [itemsToJson, he] at h
    cases h
  · intro v vs j hj e he _ _ js h
    simp only [itemsToJson, hj, he] at h
    cases h
  · intro v vs j hj rest hrest ihv ihvs js h
    simp only [itemsToJson, hj, hrest] at h
    cases h
    exact List.forall_mem_cons.mpr ⟨ihv j hj, ihvs rest hrest⟩
  -- Entries.
  · rintro fs ⟨⟩
    simp
  · intro k v es e he fs h
    simp only [entriesToJson, he] at h
    cases h
  · intro k v es key hkey e he _ fs h
    simp only [entriesToJson, hkey, he] at h
    cases h
  · intro k v es key hkey j hj e he _ _ fs h
    simp only [entriesToJson, hkey, hj, he] at h
    cases h
  · intro k v es key hkey j hj rest hrest ihv ihes fs h
    simp only [entriesToJson, hkey, hj, hrest] at h
    cases h
    exact List.forall_mem_cons.mpr ⟨ihv j hj, ihes rest hrest⟩

end Yaml

namespace TokenFile

/-- Documents have their keys in order. -/
lemma sorted_readDocument {format : Format} {content : String} {doc : Json.Value}
    (h : readDocument format content = .ok doc) : doc.Sorted := by
  cases format with
  | json =>
    rw [readDocument] at h
    cases hparse : Json.Value.parse content with
    | error e =>
      rw [hparse] at h
      cases h
    | ok v =>
      rw [hparse] at h
      cases h
      exact Json.Value.sorted_parse hparse
  | yaml =>
    rw [readDocument] at h
    split at h
    · cases h
    · next v hparse =>
      cases hjson : v.toJson with
      | error e =>
        rw [hjson] at h
        cases h
      | ok j =>
        rw [hjson] at h
        cases h
        exact Yaml.sorted_toJson.1 v _ hjson

end TokenFile

end DesignTokens
