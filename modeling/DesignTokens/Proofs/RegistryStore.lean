import DesignTokens.Proofs.Registry
import Mathlib.Data.List.Dedup
import Mathlib.Data.List.Sort

/-!
# A registry kept in maps

The tokens of a registry can be kept in a map from keys, each with the number under which its key
was first added (`Store`). A second map lists the keys of each name, and a counter gives the next
number. Overwriting keeps the number of a key, removing drops the key from both maps, and a key that
is added again has a new number. The map has no order of its own: lists are sorted by number, and of
several tokens the one with the least number is taken.

The numbers are the slots of the registry (`Mirrors`). Each operation keeps that, and keeps the two
maps in step (`InStep`); so after any commands the store answers as the registry does
(`Mirrors.shows`), which answers as a plain list of tokens (`run_refines`).
-/

namespace DesignTokens

namespace Registry

/-! ## The store -/

/-- A token with the number under which its key was first added. -/
structure Numbered where
  number : Nat
  token : Token

/-- A registry in maps. -/
structure Store where
  tokens : Std.HashMap TokenKey Numbered
  /-- The keys of each name, in the order in which they were added. -/
  byName : Std.HashMap String (List TokenKey)
  /-- The number for the next new key. -/
  next : Nat

namespace Store

/-- The store without tokens. -/
def empty : Store := ⟨∅, ∅, 0⟩

/-- Puts a token under its key. A key that is there keeps its number. -/
def put (s : Store) (t : Token) : Store :=
  match s.tokens[t.key]? with
  | some old => { s with tokens := s.tokens.insert t.key { old with token := t } }
  | none =>
    { tokens := s.tokens.insert t.key ⟨s.next, t⟩
      byName := s.byName.insert t.name (s.byName.getD t.name [] ++ [t.key])
      next := s.next + 1 }

/-- The keys of each name without one of the keys. A name without keys is dropped. -/
def dropKey (byName : Std.HashMap String (List TokenKey)) (k : TokenKey) :
    Std.HashMap String (List TokenKey) :=
  match byName[k.name]? with
  | none => byName
  | some keys =>
    let left := keys.filter (· ≠ k)
    if left.isEmpty then byName.erase k.name else byName.insert k.name left

/-- Removes the token of a key. -/
def erase (s : Store) (k : TokenKey) : Store :=
  match s.tokens[k]? with
  | none => s
  | some _ => { s with tokens := s.tokens.erase k, byName := dropKey s.byName k }

/-- The numbered tokens, in no particular order. -/
def entries (s : Store) : List Numbered :=
  s.tokens.toList.map Prod.snd

/-- The tokens that fit, sorted by number. -/
def snapshot (s : Store) (fits : Token → Bool) : List Token :=
  ((s.entries.filter fun e => fits e.token).mergeSort fun a b => a.number ≤ b.number).map
    Numbered.token

/-- The entry with the least number. -/
def oldest? : List Numbered → Option Numbered
  | [] => none
  | e :: rest =>
    match oldest? rest with
    | none => some e
    | some m => if e.number ≤ m.number then some e else some m

/-- Removes the tokens of a file, and tells how many there were. -/
def removeFile (s : Store) (file : String) : Store × Nat :=
  let keys := s.tokens.keys.filter fun k => k.filePath = file
  (keys.foldl erase s, keys.length)

/-- The store of a list of tokens. -/
def ofList (tokens : List Token) : Store :=
  tokens.foldl put empty

/-- The token of a file and a name. -/
def qualified? (s : Store) (name file : String) : Option Token :=
  (s.tokens[(⟨file, name⟩ : TokenKey)]?).map Numbered.token

/-- Finds a token by name, dotted path or CSS variable. -/
def find? (s : Store) (query : String) : Option Token :=
  match s.tokens[(⟨"", query⟩ : TokenKey)]? with
  | some e => some e.token
  | none =>
    match (s.byName[queryName query]?).bind fun keys =>
        oldest? (keys.filterMap fun k => s.tokens[k]?) with
    | some e => some e.token
    | none =>
      (oldest? (s.entries.filter fun e => e.token.cssVariable = query)).map Numbered.token

/-- The number of tokens. -/
def size (s : Store) : Nat :=
  s.tokens.size

/-- The files that tokens come from, sorted, each once. -/
def sourceFiles (s : Store) : List String :=
  (s.tokens.keys.filter fun k => !k.filePath.isEmpty).foldl
    (fun files k => insertSorted k.filePath files) []

/-- The version of a file, if the set of the versions of its tokens has one member. -/
def fileVersion (s : Store) (file : String) : Version :=
  match ((s.entries.filter fun e => e.token.filePath = file).map fun e =>
    e.token.version).dedup with
  | [v] => v
  | _ => .unknown

end Store

/-- The same command on a store. The store is changed in place, so the answer to a removal is told
from the store that there was. -/
def Command.runStore (s : Store) : Command → Store × Answer
  | .add t =>
    if t.name.isEmpty then (s, .refused (.unnamedToken t.filePath)) else (s.put t, .done)
  | .remove name =>
    (s.erase ⟨"", name⟩,
      if s.tokens.contains ⟨"", name⟩ then .done else .refused (.tokenNotFound name))
  | .removeFile file => ((s.removeFile file).1, .removed (s.removeFile file).2)
  | .clear => (.empty, .done)
  | .replaceAll tokens => (.ofList tokens, .done)

namespace Store

/-! ## The two maps in step -/

/-- The number of a key. -/
def number? (s : Store) (k : TokenKey) : Option Nat :=
  (s.tokens[k]?).map Numbered.number

/-- The maps and the counter agree. -/
structure InStep (s : Store) : Prop where
  /-- Every number was given out before. -/
  below : ∀ k i, s.number? k = some i → i < s.next
  /-- No two keys have the same number. -/
  distinct : ∀ k k' i, s.number? k = some i → s.number? k' = some i → k = k'
  /-- A name has just the keys that are there and have the name. -/
  named : ∀ n k, k ∈ s.byName.getD n [] ↔ k.name = n ∧ (s.number? k).isSome
  /-- The keys of a name are listed by number. -/
  ordered : ∀ n, (s.byName.getD n []).Pairwise fun k k' =>
    ∀ i j, s.number? k = some i → s.number? k' = some j → i < j
  /-- No name is kept without keys. -/
  nonempty : ∀ n : String, s.byName[n]? ≠ some []

/-- A key that is there has its number back when its token is overwritten. -/
lemma number?_put_of_some {s : Store} {t : Token} {old : Numbered}
    (h : s.tokens[t.key]? = some old) (k : TokenKey) : (s.put t).number? k = s.number? k := by
  simp only [number?, put, h, Std.HashMap.getElem?_insert]
  by_cases hk : t.key = k
  · subst hk
    simp [h]
  · simp [hk]

/-- A new key has the next number. -/
lemma number?_put_of_none {s : Store} {t : Token} (h : s.tokens[t.key]? = none) (k : TokenKey) :
    (s.put t).number? k = if t.key = k then some s.next else s.number? k := by
  simp only [number?, put, h, Std.HashMap.getElem?_insert]
  by_cases hk : t.key = k
  · simp [hk]
  · simp [hk]

/-- Removing a key takes its token, and no other. -/
lemma tokens_erase (s : Store) (k k' : TokenKey) :
    (s.erase k).tokens[k']? = if k = k' then none else s.tokens[k']? := by
  unfold erase
  cases h : s.tokens[k]? with
  | none =>
    split_ifs with hk
    · rw [← hk, h]
    · rfl
  | some e => simp only [Std.HashMap.getElem?_erase, beq_iff_eq]

/-- Removing a key takes its number, and no other. -/
lemma number?_erase (s : Store) (k k' : TokenKey) :
    (s.erase k).number? k' = if k = k' then none else s.number? k' := by
  rw [number?, tokens_erase]
  split_ifs <;> rfl

/-- No number is given out again. -/
lemma next_erase (s : Store) (k : TokenKey) : (s.erase k).next = s.next := by
  unfold erase
  split <;> rfl

/-- The keys of a name that are left when one key is dropped. -/
lemma getD_dropKey (byName : Std.HashMap String (List TokenKey)) (k : TokenKey) (n : String) :
    (dropKey byName k).getD n [] =
      if k.name = n then (byName.getD n []).filter (· ≠ k) else byName.getD n [] := by
  unfold dropKey
  cases hkeys : byName[k.name]? with
  | none =>
    split_ifs with hn
    · subst hn
      simp [Std.HashMap.getD_eq_getD_getElem?, hkeys]
    · rfl
  | some keys =>
    simp only
    split_ifs with hempty hn hn
    · subst hn
      simpa [Std.HashMap.getD_erase, Std.HashMap.getD_eq_getD_getElem?, hkeys] using hempty
    · simp [Std.HashMap.getD_erase, hn]
    · subst hn
      simp [Std.HashMap.getD_eq_getD_getElem?, hkeys]
    · simp [Std.HashMap.getD_insert, hn]

lemma dropKey_ne_nil {byName : Std.HashMap String (List TokenKey)}
    (h : ∀ n : String, byName[n]? ≠ some []) (k : TokenKey) (n : String) :
    (dropKey byName k)[n]? ≠ some [] := by
  unfold dropKey
  split
  · exact h n
  · simp only
    split_ifs with hempty
    · rw [Std.HashMap.getElem?_erase]
      split_ifs
      · simp
      · exact h n
    · rw [Std.HashMap.getElem?_insert]
      split_ifs
      · simpa using hempty
      · exact h n

/-- The empty store is in step. -/
lemma inStep_empty : InStep empty where
  below := by simp [number?, empty]
  distinct := by simp [number?, empty]
  named := by simp [number?, empty]
  ordered := by simp [empty]
  nonempty := by simp [empty]

/-- Overwriting a token keeps the maps in step. -/
lemma InStep.put_of_some {s : Store} (h : InStep s) {t : Token} {old : Numbered}
    (hold : s.tokens[t.key]? = some old) : InStep (s.put t) := by
  have hnumber := number?_put_of_some hold
  have hput : (s.put t).byName = s.byName ∧ (s.put t).next = s.next := by simp [Store.put, hold]
  constructor
  · simpa only [hnumber, hput] using h.below
  · simpa only [hnumber] using h.distinct
  · simpa only [hnumber, hput] using h.named
  · simpa only [hnumber, hput] using h.ordered
  · simpa only [hput] using h.nonempty

/-- A key without a number is listed under no name. -/
lemma InStep.ne_of_listed {s : Store} (h : InStep s) {k : TokenKey} (hfree : s.number? k = none)
    {n : String} {k' : TokenKey} (hk' : k' ∈ s.byName.getD n []) : k ≠ k' := by
  rintro rfl
  have hsome := ((h.named n _).mp hk').2
  rw [hfree] at hsome
  cases hsome

/-- A new key is listed last among the keys of its name. -/
lemma getD_byName_put_of_none {s : Store} {t : Token} (h : s.tokens[t.key]? = none) (n : String) :
    (s.put t).byName.getD n [] =
      if t.name = n then s.byName.getD n [] ++ [t.key] else s.byName.getD n [] := by
  simp only [put, h, Std.HashMap.getD_insert, beq_iff_eq]
  split_ifs with hn
  · rw [hn]
  · rfl

/-- A new key has the greatest number, so the keys of its name stay listed by number. -/
lemma InStep.ordered_put_of_none {s : Store} (h : InStep s) {t : Token}
    (hold : s.tokens[t.key]? = none) (n : String) :
    ((s.put t).byName.getD n []).Pairwise fun k k' =>
      ∀ i j, (s.put t).number? k = some i → (s.put t).number? k' = some j → i < j := by
  have hfree : s.number? t.key = none := by simp [number?, hold]
  -- The keys that were there keep their numbers.
  have hnumber : ∀ k ∈ s.byName.getD n [], (s.put t).number? k = s.number? k := fun k hk =>
    (number?_put_of_none hold k).trans (if_neg (h.ne_of_listed hfree hk))
  have hbefore : (s.byName.getD n []).Pairwise fun k k' =>
      ∀ i j, (s.put t).number? k = some i → (s.put t).number? k' = some j → i < j := by
    refine (h.ordered n).imp_of_mem fun {k k'} hk hk' hkk' i j hi hj => ?_
    exact hkk' i j (hnumber k hk ▸ hi) (hnumber k' hk' ▸ hj)
  rw [getD_byName_put_of_none hold]
  split_ifs with hn
  · refine List.pairwise_append.mpr ⟨hbefore, List.pairwise_singleton _ _, ?_⟩
    intro k hk k' hk' i j hi hj
    rw [List.mem_singleton.mp hk', number?_put_of_none hold, if_pos rfl] at hj
    cases hj
    exact h.below k i (hnumber k hk ▸ hi)
  · exact hbefore

/-- Adding a new key keeps the maps in step. -/
lemma InStep.put_of_none {s : Store} (h : InStep s) {t : Token}
    (hold : s.tokens[t.key]? = none) : InStep (s.put t) := by
  have hnumber := number?_put_of_none hold
  have hbyName := getD_byName_put_of_none hold
  have hnext : (s.put t).next = s.next + 1 := by simp [Store.put, hold]
  have hfree : s.number? t.key = none := by simp [number?, hold]
  constructor
  · intro k i hi
    rw [hnumber] at hi
    rw [hnext]
    split_ifs at hi with hk
    · cases hi
      exact Nat.lt_succ_self _
    · exact Nat.lt_succ_of_lt (h.below k i hi)
  · intro k k' i hi hi'
    rw [hnumber] at hi hi'
    split_ifs at hi hi' with hk hk' hk'
    · rw [← hk, ← hk']
    · cases hi
      exact absurd (h.below _ _ hi') (Nat.lt_irrefl _)
    · cases hi'
      exact absurd (h.below _ _ hi) (Nat.lt_irrefl _)
    · exact h.distinct k k' i hi hi'
  · intro n k
    rw [hnumber, hbyName]
    by_cases hk : t.key = k
    · subst hk
      have hnone : t.key ∉ s.byName.getD n [] := fun hmem => h.ne_of_listed hfree hmem rfl
      have hname : t.key.name = t.name := rfl
      by_cases hn : t.name = n
      · simp [hn, hname]
      · simp [hn, hname, hnone]
    · by_cases hn : t.name = n
      · simp [hk, hn, Ne.symm hk, h.named]
      · simp [hk, hn, h.named]
  · exact h.ordered_put_of_none hold
  · intro n
    simp only [Store.put, hold, Std.HashMap.getElem?_insert]
    split_ifs
    · simp
    · exact h.nonempty n

/-- Putting a token keeps the maps in step. -/
lemma InStep.put {s : Store} (h : InStep s) (t : Token) : InStep (s.put t) := by
  cases hold : s.tokens[t.key]? with
  | some old => exact h.put_of_some hold
  | none => exact h.put_of_none hold

/-- Whether a key that is removed was there or not, its name loses just this key. -/
lemma InStep.getD_byName_erase {s : Store} (h : InStep s) (k : TokenKey) (n : String) :
    (s.erase k).byName.getD n [] =
      if k.name = n then (s.byName.getD n []).filter (· ≠ k) else s.byName.getD n [] := by
  cases hold : s.tokens[k]? with
  | some old => simp only [Store.erase, hold, getD_dropKey]
  | none =>
    have hfree : s.number? k = none := by simp [number?, hold]
    have hfilter : (s.byName.getD n []).filter (· ≠ k) = s.byName.getD n [] :=
      List.filter_eq_self.mpr fun k' hk' => decide_eq_true (h.ne_of_listed hfree hk').symm
    simp only [Store.erase, hold, hfilter, ite_self]

/-- Removing a key keeps the maps in step. -/
lemma InStep.erase {s : Store} (h : InStep s) (k : TokenKey) : InStep (s.erase k) := by
  have hnumber := number?_erase s k
  have hbyName := h.getD_byName_erase k
  constructor
  · intro k' i hi
    rw [hnumber] at hi
    split_ifs at hi
    rw [next_erase]
    exact h.below k' i hi
  · intro k' k'' i hi hi'
    rw [hnumber] at hi hi'
    split_ifs at hi hi'
    exact h.distinct k' k'' i hi hi'
  · intro n k'
    rw [hbyName, hnumber]
    by_cases hn : k.name = n
    · rw [if_pos hn, List.mem_filter, h.named, decide_eq_true_eq]
      by_cases hk : k = k'
      · simp [hk]
      · simp [hk, Ne.symm hk]
    · rw [if_neg hn, h.named]
      by_cases hk : k = k'
      · simp [← hk, hn]
      · rw [if_neg hk]
  · intro n
    have hsub : ((s.erase k).byName.getD n []).Sublist (s.byName.getD n []) := by
      rw [hbyName]
      split_ifs
      · exact List.filter_sublist
      · exact List.Sublist.refl _
    refine ((h.ordered n).sublist hsub).imp fun {k' k''} hkk' i j hi hj => ?_
    rw [hnumber] at hi hj
    split_ifs at hi hj
    exact hkk' i j hi hj
  · intro n
    cases hold : s.tokens[k]? with
    | none =>
      simp only [Store.erase, hold]
      exact h.nonempty n
    | some old =>
      simp only [Store.erase, hold]
      exact dropKey_ne_nil h.nonempty k n

end Store

/-! ## Slots and numbers -/

/-- Putting a token changes no slot of another key. -/
lemma holds_put_of_ne {r : Registry} (h : Valid r) {t u : Token} (hkey : u.key ≠ t.key) (i : Nat) :
    (r.put t).Holds i u ↔ r.Holds i u := by
  have hexact : ∀ r' : Registry, (∃ u', r'.Holds i u' ∧ u' = u) ↔ r'.Holds i u := by simp
  rw [← hexact, ← hexact]
  cases hindex : r.index[t.key]? with
  | some j =>
    refine exists_holds_put_of_some h hindex (fun u' hu' => ?_) i
    exact iff_of_false (fun heq => hkey (heq ▸ hu')) fun heq => hkey (heq ▸ rfl)
  | none =>
    rw [exists_holds_put_of_none hindex, or_iff_right]
    rintro ⟨-, rfl⟩
    exact hkey rfl

/-- The slots that are left when a key is removed. -/
lemma holds_erase {r : Registry} (h : Valid r) {k : TokenKey} {u : Token} {i : Nat} :
    (r.erase k).Holds i u ↔ r.Holds i u ∧ u.key ≠ k := by
  cases hindex : r.index[k]? with
  | none =>
    have hother : r.Holds i u → u.key ≠ k := fun hu =>
      h.index_eq_none.mp hindex u (mem_toList.mpr ⟨i, hu⟩)
    rw [erase, hindex]
    exact (and_iff_left_of_imp hother).symm
  | some j =>
    have hexact := exists_holds_erase hindex (P := (· = u)) i
    simp only [exists_eq_right] at hexact
    rw [hexact, and_comm]
    refine and_congr_right fun hu => not_congr ?_
    constructor
    · rintro rfl
      obtain ⟨old, hold, hkey⟩ := (h.index k i).mp hindex
      rw [hu.unique hold, hkey]
    · rintro rfl
      exact Option.some.inj ((h.index_of_holds hu).symm.trans hindex)

lemma size_slots_erase (r : Registry) (k : TokenKey) :
    (r.erase k).slots.size = r.slots.size := by
  unfold erase
  split
  · rfl
  · rw [Array.size_setIfInBounds]

/-- The tokens of a registry with the numbers of their slots. -/
def numbered (r : Registry) : List Numbered :=
  r.slots.toList.zipIdx.filterMap fun p => p.1.map fun t => ⟨p.2, t⟩

/-- The numbered tokens of a registry are those in its slots, by the slots' numbers. -/
lemma mem_numbered {r : Registry} {e : Numbered} :
    e ∈ r.numbered ↔ r.Holds e.number e.token := by
  rw [numbered, List.mem_filterMap, Holds, ← Array.getElem?_toList,
    ← List.mem_zipIdx_iff_getElem? (x := (some e.token, e.number))]
  constructor
  · rintro ⟨⟨slot, i⟩, hp, hslot⟩
    obtain ⟨t, rfl, rfl⟩ := Option.map_eq_some_iff.mp hslot
    exact hp
  · intro hp
    exact ⟨_, hp, rfl⟩

/-- Numbered tokens are listed by their numbers. -/
lemma pairwise_numbered (r : Registry) :
    r.numbered.Pairwise fun a b => a.number < b.number := by
  rw [numbered, List.pairwise_filterMap]
  have hindex : (r.slots.toList.zipIdx.map Prod.snd).Pairwise (· < ·) := by
    rw [List.zipIdx_map_snd]
    exact List.pairwise_lt_range'
  refine (List.pairwise_map.mp hindex).imp fun {p q} hpq a ha b hb => ?_
  obtain ⟨t, -, rfl⟩ := Option.map_eq_some_iff.mp ha
  obtain ⟨u, -, rfl⟩ := Option.map_eq_some_iff.mp hb
  exact hpq

/-- Without their numbers they are the list of the registry. -/
lemma map_token_numbered (r : Registry) : r.numbered.map Numbered.token = r.toList := by
  have hslots : r.slots.toList = r.slots.toList.zipIdx.map Prod.fst :=
    (List.zipIdx_map_fst 0 r.slots.toList).symm
  rw [toList, numbered, List.map_filterMap]
  conv_rhs => rw [hslots, List.filterMap_map]
  refine List.filterMap_congr ?_
  rintro ⟨slot, i⟩ -
  cases slot <;> rfl

namespace Store

/-- The store has the tokens of the registry, and their slots for numbers. -/
structure Mirrors (s : Store) (r : Registry) : Prop where
  valid : Valid r
  inStep : InStep s
  next : s.next = r.slots.size
  tokens : ∀ (k : TokenKey) (e : Numbered),
    s.tokens[k]? = some e ↔ r.Holds e.number e.token ∧ e.token.key = k

variable {s : Store} {r : Registry}

lemma mirrors_empty : Mirrors empty Registry.empty where
  valid := valid_empty
  inStep := inStep_empty
  next := rfl
  tokens := by simp [empty, Registry.empty, Holds]

namespace Mirrors

/-- A key that the store does not know has no slot. -/
lemma index_eq_none (h : Mirrors s r) {k : TokenKey} (hk : s.tokens[k]? = none) :
    r.index[k]? = none := by
  rw [Option.eq_none_iff_forall_ne_some]
  intro i hi
  obtain ⟨t, ht, hkey⟩ := (h.valid.index k i).mp hi
  have hsome := (h.tokens k ⟨i, t⟩).mpr ⟨ht, hkey⟩
  rw [hk] at hsome
  cases hsome

/-- A token that is put has the number of its slot. -/
lemma exists_number (h : Mirrors s r) (t : Token) :
    ∃ i, (r.put t).Holds i t ∧ (s.put t).next = (r.put t).slots.size ∧
      ∀ k, (s.put t).tokens[k]? = if t.key = k then some ⟨i, t⟩ else s.tokens[k]? := by
  cases hold : s.tokens[t.key]? with
  | some old =>
    obtain ⟨hslot, hkey⟩ := (h.tokens _ _).mp hold
    have hindex : r.index[t.key]? = some old.number :=
      (h.valid.index _ _).mpr ⟨old.token, hslot, hkey⟩
    refine ⟨old.number, ?_, ?_, fun k => ?_⟩
    · simp [put_of_some hindex, Holds, hslot.lt]
    · simp [put_of_some hindex, put, hold, h.next]
    · simp only [put, hold, Std.HashMap.getElem?_insert, beq_iff_eq]
  | none =>
    have hindex := h.index_eq_none hold
    refine ⟨s.next, ?_, ?_, fun k => ?_⟩
    · simp [put_of_none hindex, Holds, h.next]
    · simp [put_of_none hindex, put, hold, h.next]
    · simp only [put, hold, Std.HashMap.getElem?_insert, beq_iff_eq]

/-- Storing a token keeps store and registry in step. -/
lemma put (h : Mirrors s r) (t : Token) : Mirrors (s.put t) (r.put t) := by
  obtain ⟨i, hi, hnext, htokens⟩ := h.exists_number t
  have hvalid := h.valid.put t
  refine ⟨hvalid, h.inStep.put t, hnext, fun k e => ?_⟩
  rw [htokens]
  by_cases hk : t.key = k
  · subst hk
    rw [if_pos rfl]
    constructor
    · intro he
      cases he
      exact ⟨hi, rfl⟩
    · -- Only one slot has the key.
      rintro ⟨he, hkey⟩
      obtain rfl := hvalid.slot_unique hi he hkey
      rw [hi.unique he]
  · rw [if_neg hk, h.tokens]
    refine and_congr_left fun hkey => ?_
    exact (holds_put_of_ne h.valid (fun heq => hk (heq.symm.trans hkey)) _).symm

/-- Erasing a key keeps them in step. -/
lemma erase (h : Mirrors s r) (k : TokenKey) : Mirrors (s.erase k) (r.erase k) := by
  refine ⟨h.valid.erase k, h.inStep.erase k, ?_, fun k' e => ?_⟩
  · rw [next_erase, h.next, size_slots_erase]
  · rw [tokens_erase, holds_erase h.valid]
    by_cases hk : k = k'
    · simp only [if_pos hk, reduceCtorEq, false_iff, not_and]
      exact fun hholds hkey => hholds.2 (hkey.trans hk.symm)
    · rw [if_neg hk, h.tokens, and_right_comm]
      refine (and_iff_left_of_imp fun hholds => ?_).symm
      exact fun heq => hk (heq.symm.trans hholds.2)

lemma foldl_put (h : Mirrors s r) (tokens : List Token) :
    Mirrors (tokens.foldl Store.put s) (tokens.foldl Registry.put r) := by
  induction tokens generalizing s r with
  | nil => exact h
  | cons t tokens ih => exact ih (h.put t)

lemma foldl_erase (h : Mirrors s r) (keys : List TokenKey) :
    Mirrors (keys.foldl Store.erase s) (keys.foldl Registry.erase r) := by
  induction keys generalizing s r with
  | nil => exact h
  | cons k keys ih => exact ih (h.erase k)

/-! ## What the store answers -/

/-- The entries of the store are what the slots of the registry hold. -/
lemma mem_entries (h : Mirrors s r) {e : Numbered} :
    e ∈ s.entries ↔ r.Holds e.number e.token := by
  simp only [entries, List.mem_map, Prod.exists, exists_eq_right,
    Std.HashMap.mem_toList_iff_getElem?_eq_some, h.tokens]
  exact ⟨fun ⟨k, hholds, _⟩ => hholds, fun hholds => ⟨_, hholds, rfl⟩⟩

/-- The entries of the map are the numbered tokens of the registry in some order. -/
lemma entries_perm (h : Mirrors s r) : s.entries.Perm r.numbered := by
  have hnodup : s.entries.Nodup := by
    have hkeys : s.tokens.toList.Nodup :=
      Std.HashMap.distinct_keys_toList.imp fun hne heq => by simp [heq] at hne
    refine hkeys.map_on fun p hp q hq heq => ?_
    -- The token of an entry says under which key it stands.
    have hp' := ((h.tokens _ _).mp (Std.HashMap.mem_toList_iff_getElem?_eq_some.mp hp)).2
    have hq' := ((h.tokens _ _).mp (Std.HashMap.mem_toList_iff_getElem?_eq_some.mp hq)).2
    exact Prod.ext (by rw [← hp', ← hq', heq]) heq
  have hnodup' : r.numbered.Nodup :=
    (pairwise_numbered r).imp fun hlt heq => by simp [heq] at hlt
  rw [List.perm_ext_iff_of_nodup hnodup hnodup']
  exact fun e => h.mem_entries.trans mem_numbered.symm

/-- A snapshot lists the tokens that fit in the registry's order. -/
lemma snapshot_eq (h : Mirrors s r) (fits : Token → Bool) :
    s.snapshot fits = r.toList.filter fits := by
  have hsorted : (r.numbered.filter fun e => fits e.token).Pairwise fun a b =>
      decide (b.number ≤ a.number) = false :=
    ((pairwise_numbered r).filter _).imp fun hlt => decide_eq_false (Nat.not_le_of_lt hlt)
  have hmerge := mergeSort_eq_of_perm (fun a b c => by simpa using Nat.le_trans)
    (fun a b => by simpa using Nat.le_total a.number b.number) (h.entries_perm.filter _) hsorted
  rw [snapshot, hmerge, ← map_token_numbered, List.filter_map]
  rfl

end Mirrors

lemma mem_of_oldest? {found : List Numbered} {m : Numbered} (h : oldest? found = some m) :
    m ∈ found := by
  induction found generalizing m with
  | nil => cases h
  | cons e rest ih =>
    rw [oldest?] at h
    split at h
    · cases h
      exact List.mem_cons_self ..
    · next m' hrest =>
      split_ifs at h
      · cases h
        exact List.mem_cons_self ..
      · cases h
        exact List.mem_cons_of_mem _ (ih hrest)

/-- The entry with the least number is the oldest. -/
lemma oldest?_of_least {found : List Numbered} {m : Numbered} (hm : m ∈ found)
    (hleast : ∀ e ∈ found, e = m ∨ m.number < e.number) : oldest? found = some m := by
  induction found with
  | nil => cases hm
  | cons e rest ih =>
    obtain ⟨hfirst, hrest⟩ := List.forall_mem_cons.mp hleast
    rw [oldest?]
    by_cases hmem : m ∈ rest
    · rw [ih hmem hrest]
      rcases hfirst with rfl | hlt
      · simp
      · simp [Nat.not_le_of_lt hlt]
    · obtain rfl := (List.mem_cons.mp hm).resolve_right hmem
      cases hold : oldest? rest with
      | none => rfl
      | some m' =>
        have hlt : m.number < m'.number := by
          rcases hrest m' (mem_of_oldest? hold) with rfl | hlt
          · exact absurd (mem_of_oldest? hold) hmem
          · exact hlt
        simp [hlt.le]

/-- The oldest of some entries comes first when they are sorted by number. -/
lemma oldest?_eq_head? {found sorted : List Numbered}
    (hsorted : sorted.Pairwise fun a b => a.number < b.number)
    (hmem : ∀ e, e ∈ found ↔ e ∈ sorted) : oldest? found = sorted.head? := by
  cases sorted with
  | nil =>
    obtain rfl : found = [] := List.eq_nil_iff_forall_not_mem.mpr fun e he => by simp [hmem] at he
    rfl
  | cons m rest =>
    refine oldest?_of_least ((hmem m).mpr (List.mem_cons_self ..)) fun e he => ?_
    rcases List.mem_cons.mp ((hmem e).mp he) with rfl | he
    · exact .inl rfl
    · exact .inr ((List.pairwise_cons.mp hsorted).1 e he)

namespace Mirrors

/-- The oldest of the entries that fit is the first token of the registry that fits. -/
lemma oldest?_eq (h : Mirrors s r) {found : List Numbered} {fits : Token → Bool}
    (hmem : ∀ e, e ∈ found ↔ e ∈ s.entries ∧ fits e.token = true) :
    (oldest? found).map Numbered.token = r.toList.find? fits := by
  have hsorted := (pairwise_numbered r).filter fun e => fits e.token
  rw [oldest?_eq_head? hsorted fun e => ?_, List.head?_filter, ← map_token_numbered,
    List.find?_map]
  · rfl
  · rw [hmem, List.mem_filter, h.entries_perm.mem_iff]

/-- The entries of the keys that are listed under a name. -/
lemma mem_filterMap_byName (h : Mirrors s r) {n : String} {e : Numbered} :
    e ∈ (s.byName.getD n []).filterMap (fun k => s.tokens[k]?) ↔
      e ∈ s.entries ∧ e.token.name = n := by
  simp only [List.mem_filterMap, h.inStep.named, h.mem_entries, h.tokens]
  constructor
  · rintro ⟨k, ⟨rfl, -⟩, hholds, rfl⟩
    exact ⟨hholds, rfl⟩
  · rintro ⟨hholds, rfl⟩
    refine ⟨e.token.key, ⟨rfl, ?_⟩, hholds, rfl⟩
    rw [number?, (h.tokens _ e).mpr ⟨hholds, rfl⟩]
    rfl

lemma qualified?_eq (h : Mirrors s r) (name file : String) :
    s.qualified? name file = r.qualified? name file := by
  unfold qualified? Registry.qualified?
  cases htoken : s.tokens[(⟨file, name⟩ : TokenKey)]? with
  | none => rw [h.index_eq_none htoken, Option.map_none, Option.bind_none]
  | some e =>
    obtain ⟨hholds, hkey⟩ := (h.tokens _ _).mp htoken
    rw [← hkey, h.valid.index_of_holds hholds, Option.map_some, Option.bind_some,
      slot?_eq_some.mpr hholds]

/-- Store and registry find the same token. -/
lemma find?_eq (h : Mirrors s r) (query : String) : s.find? query = r.find? query := by
  have hexact : (s.tokens[(⟨"", query⟩ : TokenKey)]?).map Numbered.token =
      r.toList.find? fun t => t.filePath = "" ∧ t.name = query :=
    (h.qualified?_eq query "").trans (h.valid.qualified?_eq query "")
  have hnamed : ((s.byName[queryName query]?).bind fun keys =>
      oldest? (keys.filterMap fun k => s.tokens[k]?)).map Numbered.token =
      r.toList.find? fun t => t.name = queryName query := by
    rw [← h.oldest?_eq fun e => h.mem_filterMap_byName.trans (by rw [decide_eq_true_eq]),
      Std.HashMap.getD_eq_getD_getElem?]
    cases s.byName[queryName query]? with
    | none => rfl
    | some keys => rfl
  have hvariable : (oldest? (s.entries.filter fun e => e.token.cssVariable = query)).map
      Numbered.token = r.toList.find? fun t => t.cssVariable = query :=
    h.oldest?_eq fun e => List.mem_filter
  rw [h.valid.find?_eq, ← hexact, ← hnamed, ← hvariable, find?]
  cases s.tokens[(⟨"", query⟩ : TokenKey)]? with
  | some e => rfl
  | none =>
    cases (s.byName[queryName query]?).bind fun keys =>
        oldest? (keys.filterMap fun k => s.tokens[k]?) with
    | some e => rfl
    | none => rfl

/-- The keys of the map are those of the registry's tokens. -/
lemma mem_keys (h : Mirrors s r) {k : TokenKey} :
    k ∈ s.tokens.keys ↔ ∃ t ∈ r.toList, t.key = k := by
  rw [Std.HashMap.mem_keys, Std.HashMap.mem_iff_isSome_getElem?, Option.isSome_iff_exists]
  simp only [h.tokens, mem_toList]
  constructor
  · rintro ⟨e, hholds, hkey⟩
    exact ⟨e.token, ⟨e.number, hholds⟩, hkey⟩
  · rintro ⟨t, ⟨i, hholds⟩, hkey⟩
    exact ⟨⟨i, t⟩, hholds, hkey⟩

/-- The keys of the store are those of the registry's tokens, in some order. -/
lemma keys_perm (h : Mirrors s r) : s.tokens.keys.Perm (r.toList.map Token.key) := by
  rw [List.perm_ext_iff_of_nodup Std.HashMap.nodup_keys h.valid.nodup]
  intro k
  rw [h.mem_keys, List.mem_map]

lemma size_eq (h : Mirrors s r) : s.size = r.size := by
  rw [size, h.valid.size_eq, ← Std.HashMap.length_keys, h.keys_perm.length_eq, List.length_map]

/-- Lists of different texts with the same members are sorted into one list. -/
lemma sourceFiles_eq (h : Mirrors s r) : s.sourceFiles = r.sourceFiles := by
  obtain ⟨hsorted, hmem⟩ := foldl_insertSorted TokenKey.filePath
    (s.tokens.keys.filter fun k => !k.filePath.isEmpty) List.Pairwise.nil
  have hrefines := h.valid.refines
  have hsame : ∀ f, f ∈ s.sourceFiles ↔ f ∈ r.sourceFiles := by
    intro f
    rw [sourceFiles, hmem, hrefines.mem_sourceFiles]
    simp only [List.not_mem_nil, false_or, List.mem_filter, h.mem_keys, Bool.not_eq_true',
      String.isEmpty_eq_false_iff]
    constructor
    · rintro ⟨k, ⟨⟨t, ht, rfl⟩, hne⟩, rfl⟩
      exact ⟨hne, t, ht, rfl⟩
    · rintro ⟨hne, t, ht, rfl⟩
      exact ⟨t.key, ⟨⟨t, ht, rfl⟩, hne⟩, rfl⟩
  exact hsorted.eq_of_mem_iff hrefines.sourceFiles_sorted hsame

lemma fileVersion_eq (h : Mirrors s r) (file : String) :
    s.fileVersion file = r.fileVersion file := by
  -- The set of versions, and when it has one member.
  have hmem : ∀ v, v ∈ ((s.entries.filter fun e => e.token.filePath = file).map fun e =>
      e.token.version).dedup ↔ ∃ t ∈ r.toList, t.filePath = file ∧ t.version = v := by
    intro v
    simp only [List.mem_dedup, List.mem_map, List.mem_filter, h.mem_entries, mem_toList,
      decide_eq_true_eq]
    constructor
    · rintro ⟨e, ⟨hholds, hfile⟩, hversion⟩
      exact ⟨e.token, ⟨e.number, hholds⟩, hfile, hversion⟩
    · rintro ⟨t, ⟨i, hholds⟩, hfile, hversion⟩
      exact ⟨⟨i, t⟩, ⟨hholds, hfile⟩, hversion⟩
  have hnodup := List.nodup_dedup ((s.entries.filter fun e => e.token.filePath = file).map fun e =>
    e.token.version)
  unfold fileVersion
  generalize ((s.entries.filter fun e => e.token.filePath = file).map fun e =>
    e.token.version).dedup = versions at hmem hnodup
  match versions with
  | [] =>
    refine (fileVersion_of_not_shared ?_).symm
    rintro ⟨v, ⟨t, ht, hfile⟩, -⟩
    cases (hmem t.version).mpr ⟨t, ht, hfile, rfl⟩
  | [v] =>
    obtain ⟨t, ht, hfile, -⟩ := (hmem v).mp (List.mem_singleton_self v)
    refine (fileVersion_of_shared ⟨t, ht, hfile⟩ fun u hu hfile' => ?_).symm
    exact List.mem_singleton.mp ((hmem u.version).mpr ⟨u, hu, hfile', rfl⟩)
  | v :: w :: rest =>
    refine (fileVersion_of_not_shared ?_).symm
    rintro ⟨v', -, hall⟩
    obtain ⟨t, ht, htfile, htv⟩ := (hmem v).mp (by simp)
    obtain ⟨u, hu, hufile, huw⟩ := (hmem w).mp (by simp)
    have hvw : v = w := by rw [← htv, ← huw, hall t ht htfile, hall u hu hufile]
    simp [hvw] at hnodup

end Mirrors

/-- What the store answers is what the registry answers. -/
structure Shows (s : Store) (r : Registry) : Prop where
  all : s.snapshot (fun _ => true) = r.toList
  ofVersion : ∀ version, s.snapshot (fun t => t.version = version) = r.ofVersion version
  ofFile : ∀ file, s.snapshot (fun t => t.filePath = file) = r.ofFile file
  startingWith : ∀ start, s.snapshot (fun t => Text.startsWith start t.name) = r.startingWith start
  size : s.size = r.size
  sourceFiles : s.sourceFiles = r.sourceFiles
  qualified : ∀ name file, s.qualified? name file = r.qualified? name file
  version : ∀ file, s.fileVersion file = r.fileVersion file
  find : ∀ query, s.find? query = r.find? query

/-- A store in step with a registry gives the registry's answers. -/
lemma Mirrors.shows (h : Mirrors s r) : Shows s r where
  all := by rw [h.snapshot_eq, List.filter_true]
  ofVersion _ := h.snapshot_eq _
  ofFile _ := h.snapshot_eq _
  startingWith _ := h.snapshot_eq _
  size := h.size_eq
  sourceFiles := h.sourceFiles_eq
  qualified := h.qualified?_eq
  version := h.fileVersion_eq
  find := h.find?_eq

end Store

/-! ## Sequences of commands -/

/-- What is left when several keys are removed. It does not depend on their order. -/
lemma holds_foldl_erase {r : Registry} (h : Valid r) (keys : List TokenKey) :
    Valid (keys.foldl erase r) ∧ (keys.foldl erase r).slots.size = r.slots.size ∧
      ∀ i u, (keys.foldl erase r).Holds i u ↔ r.Holds i u ∧ u.key ∉ keys := by
  induction keys generalizing r with
  | nil => exact ⟨h, rfl, by simp⟩
  | cons k keys ih =>
    obtain ⟨hvalid, hsize, hholds⟩ := ih (h.erase k)
    refine ⟨hvalid, hsize.trans (size_slots_erase r k), fun i u => ?_⟩
    rw [List.foldl_cons, hholds, holds_erase h, List.mem_cons, not_or, and_assoc]

namespace Store

/-- A removal by file takes the keys in the order of the map from the store, and in the order of
the list from the registry. -/
lemma Mirrors.removeFile (h : Mirrors s r) (file : String) :
    Mirrors (s.removeFile file).1 (r.removeFile file).1 ∧
      (s.removeFile file).2 = (r.removeFile file).2 := by
  have hperm : (s.tokens.keys.filter fun k => k.filePath = file).Perm
      ((r.ofFile file).map Token.key) := by
    have hfilter := h.keys_perm.filter fun k => k.filePath = file
    rwa [List.filter_map] at hfilter
  have hmirrors := h.foldl_erase (s.tokens.keys.filter fun k => k.filePath = file)
  obtain ⟨-, hsize, hholds⟩ :=
    holds_foldl_erase h.valid (s.tokens.keys.filter fun k => k.filePath = file)
  obtain ⟨hvalid, hsize', hholds'⟩ := holds_foldl_erase h.valid ((r.ofFile file).map Token.key)
  have hfold : (r.removeFile file).1 = ((r.ofFile file).map Token.key).foldl Registry.erase r := by
    rw [List.foldl_map]
    rfl
  refine ⟨⟨hfold ▸ hvalid, hmirrors.inStep, ?_, fun k e => ?_⟩, ?_⟩
  · exact hmirrors.next.trans (by rw [hsize, hfold, hsize'])
  · refine (hmirrors.tokens k e).trans ?_
    rw [hholds, hfold, hholds', hperm.mem_iff]
  · exact hperm.length_eq.trans (List.length_map _)

end Store

/-- One command does to a store what it does to the registry. -/
lemma Command.runStore_spec {s : Store} {r : Registry} (h : s.Mirrors r) (c : Command) :
    (c.runStore s).1.Mirrors (c.run r).1 ∧ (c.runStore s).2 = (c.run r).2 := by
  cases c with
  | add t =>
    simp only [runStore, run, Registry.add]
    split_ifs
    · exact ⟨h, rfl⟩
    · exact ⟨h.put t, rfl⟩
  | remove name =>
    have hcontains : s.tokens.contains ⟨"", name⟩ = r.index.contains ⟨"", name⟩ := by
      rw [Bool.eq_iff_iff, Std.HashMap.contains_iff_mem, Std.HashMap.contains_iff_mem,
        h.valid.mem_index, ← h.mem_keys, Std.HashMap.mem_keys]
    simp only [runStore, run, Registry.remove, hcontains]
    split_ifs with hfound
    · exact ⟨h.erase _, rfl⟩
    · -- There is nothing to remove, so the registry that stays mirrors the store after it.
      have hnone : r.index[(⟨"", name⟩ : TokenKey)]? = none :=
        Std.HashMap.getElem?_eq_none_of_contains_eq_false (Bool.eq_false_iff.mpr hfound)
      have herase : r.erase ⟨"", name⟩ = r := by rw [erase, hnone]
      exact ⟨herase ▸ h.erase ⟨"", name⟩, rfl⟩
  | removeFile file =>
    obtain ⟨hmirrors, hcount⟩ := h.removeFile file
    exact ⟨hmirrors, congrArg Answer.removed hcount⟩
  | clear => exact ⟨Store.mirrors_empty, rfl⟩
  | replaceAll tokens => exact ⟨Store.mirrors_empty.foldl_put tokens, rfl⟩

/-- Runs of both end in step and with the same answers. -/
lemma runAll_runStore {s : Store} {r : Registry} (h : s.Mirrors r) (commands : List Command) :
    (runAll Command.runStore s commands).1.Mirrors (runAll Command.run r commands).1 ∧
      (runAll Command.runStore s commands).2 = (runAll Command.run r commands).2 := by
  induction commands generalizing s r with
  | nil => exact ⟨h, rfl⟩
  | cons c rest ih =>
    obtain ⟨hmirrors, hanswer⟩ := Command.runStore_spec h c
    obtain ⟨hmirrors', hanswers⟩ := ih hmirrors
    exact ⟨hmirrors', by simp only [runAll, hanswer, hanswers]⟩

/-- A command that is refused changes nothing in the maps. -/
lemma Command.runStore_refused {s : Store} {c : Command} {e : Error}
    (h : (c.runStore s).2 = .refused e) : (c.runStore s).1 = s := by
  cases c with
  | add t =>
    simp only [runStore] at h ⊢
    split_ifs at h ⊢
    rfl
  | remove name =>
    simp only [runStore] at h ⊢
    split_ifs at h with hfound
    have hnone : s.tokens[(⟨"", name⟩ : TokenKey)]? = none :=
      Std.HashMap.getElem?_eq_none_of_contains_eq_false (Bool.eq_false_iff.mpr hfound)
    rw [Store.erase, hnone]
  | removeFile file => cases h
  | clear => cases h
  | replaceAll new => cases h

/-- The registry after any sequence of commands is the list after the same commands: the commands
answer the same, all queries are answered from the list, and a command that is refused leaves the
list as it is. The same is true of the registry in maps, which stay in step. -/
theorem run_refines (commands : List Command) :
    (runAll Command.run empty commands).2 = (runAll Command.runList [] commands).2 ∧
    Refines (runAll Command.run empty commands).1 (runAll Command.runList [] commands).1 ∧
    (∀ c e, (Command.run (runAll Command.run empty commands).1 c).2 = .refused e →
      (Command.run (runAll Command.run empty commands).1 c).1.toList
        = (runAll Command.runList [] commands).1) ∧
    (runAll Command.runStore .empty commands).2 = (runAll Command.runList [] commands).2 ∧
    (runAll Command.runStore .empty commands).1.InStep ∧
    (runAll Command.runStore .empty commands).1.Shows (runAll Command.run empty commands).1 ∧
    ∀ c e, (Command.runStore (runAll Command.runStore .empty commands).1 c).2 = .refused e →
      (Command.runStore (runAll Command.runStore .empty commands).1 c).1
        = (runAll Command.runStore .empty commands).1 := by
  obtain ⟨hvalid, hrun⟩ := runAll_spec valid_empty commands
  obtain ⟨hmirrors, hanswers⟩ := runAll_runStore Store.mirrors_empty commands
  have hempty : empty.toList = [] := rfl
  rw [hempty] at hrun
  rw [← hrun]
  refine ⟨rfl, hvalid.refines, fun c e hrefused => ?_, hanswers, hmirrors.inStep, hmirrors.shows,
    fun c e => Command.runStore_refused⟩
  obtain ⟨-, hstep⟩ := Command.run_spec hvalid c
  have hanswer := congrArg Prod.snd hstep
  have hlist := congrArg Prod.fst hstep
  simp only at hanswer hlist
  rw [hlist]
  exact Command.runList_refused (hanswer ▸ hrefused)

/-- Two files with tokens of one name, a token with a prefix, one without a file, and two commands
that are refused. -/
def sampleCommands : List Command :=
  [.add { name := "color-primary", value := "#00f", cssPrefix := "ds", filePath := "a.json" },
    .add { name := "color-primary", value := "#f00", filePath := "b.json" },
    .add { name := "", value := "0", filePath := "b.json" },
    .add { name := "a.b", value := "1" },
    .remove "gap",
    .add { name := "color-primary", value := "#0f0", cssPrefix := "ds", filePath := "a.json" }]

/-- A token is found by its name with hyphens or with points, with two hyphens before it, and with
its prefix; a name with a point in it only if the token has no file. -/
theorem run_refines_sample :
    (["color-primary", "color.primary", "--color-primary", "--ds-color-primary", "a.b", "a-b",
        "----color-primary"].map fun query =>
      (((runAll Command.run empty sampleCommands).1.find? query).map Token.value,
        ((runAll Command.runStore .empty sampleCommands).1.find? query).map Token.value)) =
      [(some "#0f0", some "#0f0"), (some "#0f0", some "#0f0"), (some "#0f0", some "#0f0"),
        (some "#0f0", some "#0f0"), (some "1", some "1"), (none, none), (none, none)] ∧
    (runAll Command.runStore .empty sampleCommands).2 =
      [.done, .done, .refused (.unnamedToken "b.json"), .done, .refused (.tokenNotFound "gap"),
        .done] ∧
    (Command.run (runAll Command.run empty sampleCommands).1 (.add { name := "" })).1.toList.map
      Token.value = ["#0f0", "#f00", "1"] := by
  obtain ⟨-, hrefines, hrefused, hanswers, -, hshows, -⟩ := run_refines sampleCommands
  refine ⟨?_, ?_, ?_⟩
  · simp only [hshows.find, hrefines.find]
    decide +kernel
  · rw [hanswers]
    rfl
  · rw [hrefused (.add { name := "" }) (.unnamedToken "") rfl]
    decide +kernel

/-- A known key keeps its place, and a key that was removed comes back at the end. -/
example :
    (runAll Command.runList []
      [.add { name := "a", value := "1" }, .add { name := "b", value := "2" },
        .add { name := "a", value := "3" }, .add { name := "", value := "4" }, .remove "b",
        .add { name := "c", value := "5" }, .add { name := "b", value := "6" }]).1.map
      Token.value = ["3", "5", "6"] := by
  decide +kernel

end Registry

end DesignTokens
