import DesignTokens.Proofs.ReferenceGraph
import DesignTokens.Registry
import Mathlib.Data.List.Nodup

/-!
# The registry as a list of tokens

A registry keeps tokens in slots, some of them empty, and finds slots by key and by name. What it
stands for is a plain list of tokens with different keys (`Registry.toList`): a token with a new key
goes to the end, one with a known key takes the place of the old one, and removing leaves the others
where they are.

The indexes agree with the slots (`Registry.Valid`). Each operation keeps that (`Valid.put`,
`Valid.erase`) and changes the list as said (`toList_put`, `toList_erase`), and all queries can be
read off the list (`Valid.refines`). So the registry that any sequence of commands leads to, and
what the commands answer, are those of the list (`runAll_spec`).
-/

namespace DesignTokens

lemma Text.startsWith_iff {start s : String} :
    Text.startsWith start s = true ↔ start.toList <+: s.toList := by
  rw [Text.startsWith, Option.isSome_iff_exists]
  constructor
  · rintro ⟨rest, hrest⟩
    exact ⟨rest, (Text.dropStart?_eq_some.mp hrest).symm⟩
  · rintro ⟨rest, hrest⟩
    exact ⟨rest, Text.dropStart?_eq_some.mpr hrest.symm⟩

lemma Token.key_eq_iff {t : Token} {file name : String} :
    t.key = ⟨file, name⟩ ↔ t.filePath = file ∧ t.name = name := by
  rw [Token.key, TokenKey.mk.injEq]

/-- A CSS variable ends with the name of its token. -/
lemma Token.exists_cssVariable_eq (t : Token) :
    ∃ start, t.cssVariable = "--" ++ start ++ t.name := by
  unfold Token.cssVariable
  split_ifs
  · exact ⟨"", by simp⟩
  · exact ⟨t.cssPrefix ++ "-", by simp only [String.append_assoc]⟩

namespace Registry

/-! ## Slots and the list -/

/-- The slot has the token. -/
def Holds (r : Registry) (i : Nat) (t : Token) : Prop :=
  r.slots[i]? = some (some t)

lemma Holds.lt {r : Registry} {i : Nat} {t : Token} (h : r.Holds i t) : i < r.slots.size :=
  (Array.getElem?_eq_some_iff.mp h).1

lemma Holds.unique {r : Registry} {i : Nat} {t u : Token} (ht : r.Holds i t) (hu : r.Holds i u) :
    t = u :=
  Option.some.inj (Option.some.inj (ht.symm.trans hu))

lemma slot?_eq_some {r : Registry} {i : Nat} {t : Token} : r.slot? i = some t ↔ r.Holds i t :=
  Option.join_eq_some_iff

/-- The tokens of a registry are those that its slots hold. -/
lemma mem_toList {r : Registry} {t : Token} : t ∈ r.toList ↔ ∃ i, r.Holds i t := by
  rw [toList, List.mem_filterMap]
  simp only [id_eq, exists_eq_right, List.mem_iff_getElem?, Holds, Array.getElem?_toList]

lemma holds_of_getElem {r : Registry} {i : Nat} {t : Token} (hi : i < r.slots.toList.length)
    (h : r.slots.toList[i] = some t) : r.Holds i t := by
  rw [Holds, ← Array.getElem?_toList, List.getElem?_eq_getElem hi, h]

/-- The first slot whose token fits has the first token of the list that fits. -/
lemma find?_toList {r : Registry} {p : Token → Bool} {i : Nat} {t : Token} (ht : r.Holds i t)
    (hp : p t = true) (hfirst : ∀ j < i, ∀ u, r.Holds j u → p u = false) :
    r.toList.find? p = some t := by
  -- The slots before, the slot itself, and the slots after, which the search does not come to.
  have hsplit : r.slots.toList
      = r.slots.toList.take i ++ some t :: r.slots.toList.drop (i + 1) := by
    have hi : i < r.slots.toList.length := ht.lt
    have hget : r.slots.toList[i] = some t := by
      rw [Array.getElem_toList]
      exact (Array.getElem?_eq_some_iff.mp ht).2
    rw [← hget, List.getElem_cons_drop, List.take_append_drop]
  have hnone : ((r.slots.toList.take i).filterMap id).find? p = none := by
    rw [List.find?_eq_none]
    intro u hu
    obtain ⟨o, ho, hou⟩ := List.mem_filterMap.mp hu
    obtain ⟨j, hj, hget⟩ := List.mem_take_iff_getElem.mp ho
    have hholds : r.Holds j u := holds_of_getElem (by omega) (hget.trans hou)
    simp [hfirst j (by omega) u hholds]
  have hhere : ((some t :: r.slots.toList.drop (i + 1)).filterMap id).find? p = some t :=
    List.find?_cons_of_pos hp
  rw [toList, hsplit, List.filterMap_append, List.find?_append, hnone, Option.none_or, hhere]

/-! ## Indexes that agree with the slots -/

/-- The indexes tell where the slots have what. -/
structure Valid (r : Registry) : Prop where
  /-- A key leads to the slot of its token. -/
  index : ∀ k i, r.index[k]? = some i ↔ ∃ t, r.Holds i t ∧ t.key = k
  /-- The slots of a name are listed in order. -/
  sorted : ∀ n, (r.named.getD n []).Pairwise (· < ·)
  /-- A name leads to the slots of all tokens that bear it, and to no other slots. -/
  named : ∀ n i, i ∈ r.named.getD n [] ↔ ∃ t, r.Holds i t ∧ t.name = n

lemma valid_empty : Valid empty := by
  constructor
  · simp [empty, Holds]
  · simp [empty]
  · simp [empty, Holds]

/-- The index leads from the key of a token to its slot. -/
lemma Valid.index_of_holds {r : Registry} (h : Valid r) {i : Nat} {t : Token} (ht : r.Holds i t) :
    r.index[t.key]? = some i :=
  (h.index _ _).mpr ⟨t, ht, rfl⟩

/-- Only one slot has a token with a given key. -/
lemma Valid.slot_unique {r : Registry} (h : Valid r) {i j : Nat} {t u : Token} (ht : r.Holds i t)
    (hu : r.Holds j u) (hkey : u.key = t.key) : j = i := by
  have hi := h.index_of_holds ht
  have hj := h.index_of_holds hu
  rw [hkey, hi] at hj
  exact (Option.some.inj hj).symm

/-- A key that is not in the index belongs to no token. -/
lemma Valid.index_eq_none {r : Registry} (h : Valid r) {k : TokenKey} :
    r.index[k]? = none ↔ ∀ t ∈ r.toList, t.key ≠ k := by
  constructor
  · intro hnone t ht hkey
    obtain ⟨i, hi⟩ := mem_toList.mp ht
    rw [← hkey, h.index_of_holds hi] at hnone
    cases hnone
  · intro hne
    by_contra hsome
    obtain ⟨i, hi⟩ := Option.ne_none_iff_exists'.mp hsome
    obtain ⟨t, ht, hkey⟩ := (h.index k i).mp hi
    exact hne t (mem_toList.mpr ⟨i, ht⟩) hkey

/-- The index has the keys of the tokens. -/
lemma Valid.mem_index {r : Registry} (h : Valid r) {k : TokenKey} :
    k ∈ r.index ↔ ∃ t ∈ r.toList, t.key = k := by
  rw [Std.HashMap.mem_iff_isSome_getElem?, Option.isSome_iff_ne_none, ne_eq, h.index_eq_none]
  simp

/-- The tokens of the list have different keys. -/
lemma Valid.nodup {r : Registry} (h : Valid r) : (r.toList.map Token.key).Nodup := by
  rw [List.nodup_iff_pairwise_ne, List.pairwise_map, toList, List.pairwise_filterMap,
    List.pairwise_iff_getElem]
  intro i j hi hj hij t ht u hu hkey
  have heq := h.slot_unique (holds_of_getElem hj hu) (holds_of_getElem hi ht) hkey
  omega

/-- No other slot has the key, so changing the slot changes the list at the key. -/
lemma Valid.filterMap_set {r : Registry} (h : Valid r) {i : Nat} {old : Token}
    (hold : r.Holds i old) (o : Option Token) :
    (r.slots.setIfInBounds i o).toList.filterMap id
      = r.toList.filterMap fun u => if u.key = old.key then o else some u := by
  have hslots : (r.slots.setIfInBounds i o).toList = r.slots.toList.map fun slot =>
      slot.bind fun u => if u.key = old.key then o else some u := by
    apply List.ext_getElem?
    intro j
    rw [Array.getElem?_toList, Array.getElem?_setIfInBounds, List.getElem?_map,
      Array.getElem?_toList]
    -- The slot itself has the old key; another slot is empty or has another key.
    by_cases hj : i = j
    · subst hj
      rw [if_pos rfl, if_pos hold.lt, show r.slots[i]? = some (some old) from hold]
      simp
    · rw [if_neg hj]
      cases hslot : r.slots[j]? with
      | none => rfl
      | some slot =>
        cases slot with
        | none => rfl
        | some u =>
          have hkey : u.key ≠ old.key := fun hkey => hj (h.slot_unique hold hslot hkey).symm
          simp [hkey]
  rw [hslots, List.filterMap_map, toList, List.filterMap_filterMap]
  rfl

/-! ## Putting a token -/

/-- Storing a token under a key in use overwrites its slot. -/
lemma put_of_some {r : Registry} {t : Token} {i : Nat} (h : r.index[t.key]? = some i) :
    r.put t = { r with slots := r.slots.setIfInBounds i (some t) } := by
  rw [put, h]

/-- Storing a token under a new key appends a slot. -/
lemma put_of_none {r : Registry} {t : Token} (h : r.index[t.key]? = none) :
    r.put t =
      { slots := r.slots.push (some t)
        index := r.index.insert t.key r.slots.size
        named := r.named.insert t.name (r.named.getD t.name [] ++ [r.slots.size]) } := by
  rw [put, h]

/-- A known key: what holds of the old token and the new one alike is found where it was. -/
lemma exists_holds_put_of_some {r : Registry} (hr : Valid r) {t : Token} {i : Nat}
    (h : r.index[t.key]? = some i) {P : Token → Prop} (hP : ∀ u, u.key = t.key → (P u ↔ P t))
    (j : Nat) : (∃ u, (r.put t).Holds j u ∧ P u) ↔ ∃ u, r.Holds j u ∧ P u := by
  obtain ⟨old, hold, hkey⟩ := (hr.index _ _).mp h
  simp only [put_of_some h, Holds, Array.getElem?_setIfInBounds]
  by_cases hji : i = j
  · subst hji
    have hslot : r.slots[i]? = some (some old) := hold
    simp only [hold.lt, hslot, ↓reduceIte, Option.some.injEq, exists_eq_left']
    exact (hP old hkey).symm
  · simp [hji]

/-- A new key: the token is found in the new slot. -/
lemma exists_holds_put_of_none {r : Registry} {t : Token} (h : r.index[t.key]? = none)
    {P : Token → Prop} (j : Nat) :
    (∃ u, (r.put t).Holds j u ∧ P u) ↔ (j = r.slots.size ∧ P t) ∨ ∃ u, r.Holds j u ∧ P u := by
  simp only [put_of_none h, Holds, Array.getElem?_push]
  by_cases hj : j = r.slots.size
  · simp [hj]
  · simp [hj]

/-- Storing a token keeps a registry valid. -/
lemma Valid.put {r : Registry} (h : Valid r) (t : Token) : Valid (r.put t) := by
  cases hindex : r.index[t.key]? with
  | some i =>
    -- The indexes stay as they are, and the new token has the key and the name of the old one.
    have hput := put_of_some hindex
    refine ⟨fun k j => ?_, fun n => ?_, fun n j => ?_⟩
    · rw [exists_holds_put_of_some h hindex (fun u hu => by rw [hu]), ← h.index, hput]
    · rw [hput]
      exact h.sorted n
    · have hname : ∀ u : Token, u.key = t.key → (u.name = n ↔ t.name = n) :=
        fun u hu => by rw [show u.name = t.name from congrArg TokenKey.name hu]
      rw [exists_holds_put_of_some h hindex hname, ← h.named, hput]
  | none =>
    have hput := put_of_none hindex
    -- Slots that were there before lie below the new one.
    have hbelow : ∀ n, ∀ j ∈ r.named.getD n [], j < r.slots.size := by
      intro n j hj
      obtain ⟨u, hu, -⟩ := (h.named n j).mp hj
      exact hu.lt
    refine ⟨fun k j => ?_, fun n => ?_, fun n j => ?_⟩
    · rw [exists_holds_put_of_none hindex, ← h.index, hput, Std.HashMap.getElem?_insert]
      simp only [beq_iff_eq]
      by_cases hk : t.key = k
      · subst hk
        simp [hindex, eq_comm]
      · simp [hk]
    · rw [hput, Std.HashMap.getD_insert]
      split_ifs
      · refine List.pairwise_append.mpr ⟨h.sorted _, List.pairwise_singleton _ _, ?_⟩
        intro j hj size hsize
        rw [List.mem_singleton.mp hsize]
        exact hbelow _ j hj
      · exact h.sorted n
    · rw [exists_holds_put_of_none hindex, ← h.named, hput, Std.HashMap.getD_insert]
      simp only [beq_iff_eq]
      by_cases hn : t.name = n
      · subst hn
        simp [or_comm]
      · simp [hn]

/-- The list with a token under its key: in the place of the token that had the key, or at the
end. -/
def inserted (tokens : List Token) (t : Token) : List Token :=
  if ∃ u ∈ tokens, u.key = t.key then tokens.map fun u => if u.key = t.key then t else u
  else tokens ++ [t]

/-- Storing a token puts it in the place of the one with its key, or at the end of the list. -/
lemma toList_put {r : Registry} (h : Valid r) (t : Token) :
    (r.put t).toList = inserted r.toList t := by
  unfold inserted
  cases hindex : r.index[t.key]? with
  | some i =>
    obtain ⟨old, hold, hkey⟩ := (h.index _ _).mp hindex
    rw [if_pos ⟨old, mem_toList.mpr ⟨i, hold⟩, hkey⟩]
    rw [put_of_some hindex, toList, h.filterMap_set hold, hkey, ← List.filterMap_eq_map]
    refine List.filterMap_congr fun u _ => ?_
    rw [Function.comp_apply, apply_ite some]
  | none =>
    have hnew : ¬ ∃ u ∈ r.toList, u.key = t.key := by
      rintro ⟨u, hu, hkey⟩
      exact h.index_eq_none.mp hindex u hu hkey
    rw [if_neg hnew, put_of_none hindex, toList, Array.toList_push, List.filterMap_append]
    rfl

/-! ## Removing tokens -/

/-- Erasing a key empties its slot, and the slots behind it stay where they are. -/
lemma erase_of_some {r : Registry} {k : TokenKey} {i : Nat} (h : r.index[k]? = some i) :
    r.erase k =
      { slots := r.slots.setIfInBounds i none
        index := r.index.erase k
        named := r.named.insert k.name ((r.named.getD k.name []).filter (· ≠ i)) } := by
  rw [erase, h]

/-- After a key is erased the other slots hold what they held. -/
lemma exists_holds_erase {r : Registry} {k : TokenKey} {i : Nat} (h : r.index[k]? = some i)
    {P : Token → Prop} (j : Nat) :
    (∃ u, (r.erase k).Holds j u ∧ P u) ↔ j ≠ i ∧ ∃ u, r.Holds j u ∧ P u := by
  simp only [erase_of_some h, Holds, Array.getElem?_setIfInBounds]
  by_cases hj : i = j
  · simp [hj]
  · simp [hj, Ne.symm hj]

/-- Erasing a key keeps a registry valid. -/
lemma Valid.erase {r : Registry} (h : Valid r) (k : TokenKey) : Valid (r.erase k) := by
  cases hindex : r.index[k]? with
  | none => rwa [Registry.erase, hindex]
  | some i =>
    obtain ⟨old, hold, hkey⟩ := (h.index _ _).mp hindex
    have herase := erase_of_some hindex
    refine ⟨fun k' j => ?_, fun n => ?_, fun n j => ?_⟩
    · rw [exists_holds_erase hindex, ← h.index, herase, Std.HashMap.getElem?_erase]
      simp only [beq_iff_eq]
      by_cases hk : k = k'
      · subst hk
        simp [hindex, eq_comm]
      · -- Another key leads to another slot.
        have hslot : r.index[k']? = some j → j ≠ i := by
          rintro hj rfl
          obtain ⟨u, hu, hu'⟩ := (h.index _ _).mp hj
          exact hk (by rw [← hu', hu.unique hold, hkey])
        simpa [hk] using hslot
    · rw [herase, Std.HashMap.getD_insert]
      split_ifs
      · exact (h.sorted _).filter _
      · exact h.sorted n
    · rw [exists_holds_erase hindex, ← h.named, herase, Std.HashMap.getD_insert]
      simp only [beq_iff_eq]
      by_cases hn : k.name = n
      · subst hn
        simp [List.mem_filter, and_comm]
      · -- The slot was listed under no other name.
        have hslot : j ∈ r.named.getD n [] → j ≠ i := by
          rintro hj rfl
          obtain ⟨u, hu, hu'⟩ := (h.named _ _).mp hj
          exact hn (by rw [← hu', hu.unique hold, ← hkey]; rfl)
        simpa [hn] using hslot

/-- Erasing a key takes its token from the list and keeps the order of the others. -/
lemma toList_erase {r : Registry} (h : Valid r) (k : TokenKey) :
    (r.erase k).toList = r.toList.filter fun u => u.key ≠ k := by
  cases hindex : r.index[k]? with
  | none =>
    rw [erase, hindex, eq_comm, List.filter_eq_self]
    intro u hu
    exact decide_eq_true (h.index_eq_none.mp hindex u hu)
  | some i =>
    obtain ⟨old, hold, hkey⟩ := (h.index _ _).mp hindex
    rw [erase_of_some hindex, toList, h.filterMap_set hold, hkey, ← List.filterMap_eq_filter]
    refine List.filterMap_congr fun u _ => ?_
    by_cases hu : u.key = k
    · simp [hu, Option.guard]
    · simp [hu, Option.guard]

/-- Erasing the keys of some tokens takes them from the list. -/
lemma foldl_erase {r : Registry} (h : Valid r) (tokens : List Token) :
    Valid (tokens.foldl (fun r t => r.erase t.key) r) ∧
      (tokens.foldl (fun r t => r.erase t.key) r).toList
        = r.toList.filter fun u => u.key ∉ tokens.map Token.key := by
  induction tokens generalizing r with
  | nil => exact ⟨h, by simp⟩
  | cons t tokens ih =>
    obtain ⟨hvalid, hlist⟩ := ih (h.erase t.key)
    refine ⟨hvalid, ?_⟩
    rw [List.foldl_cons, hlist, toList_erase h, List.filter_filter]
    refine List.filter_congr fun u _ => ?_
    rw [Bool.eq_iff_iff]
    simp [not_or, and_comm]

lemma Valid.removeFile {r : Registry} (h : Valid r) (file : String) :
    Valid (r.removeFile file).1 :=
  (foldl_erase h _).1

/-- Removing a file takes its tokens from the list. -/
lemma toList_removeFile {r : Registry} (h : Valid r) (file : String) :
    (r.removeFile file).1.toList = r.toList.filter fun u => u.filePath ≠ file := by
  rw [removeFile, (foldl_erase h _).2]
  refine List.filter_congr fun u hu => ?_
  rw [Bool.eq_iff_iff, decide_eq_true_eq, decide_eq_true_eq, not_iff_not, List.mem_map]
  constructor
  · rintro ⟨t, ht, hkey⟩
    have hfile : t.filePath = u.filePath := congrArg TokenKey.filePath hkey
    rw [← hfile]
    exact of_decide_eq_true (List.mem_filter.mp ht).2
  · rintro hfile
    exact ⟨u, List.mem_filter.mpr ⟨hu, decide_eq_true hfile⟩, rfl⟩

/-- Storing tokens one after the other inserts them into the list. -/
lemma foldl_put {r : Registry} (h : Valid r) (tokens : List Token) :
    Valid (tokens.foldl Registry.put r) ∧
      (tokens.foldl Registry.put r).toList = tokens.foldl inserted r.toList := by
  induction tokens generalizing r with
  | nil => exact ⟨h, rfl⟩
  | cons t tokens ih =>
    rw [List.foldl_cons, List.foldl_cons, ← toList_put h]
    exact ih (h.put t)

/-! ## Queries -/

/-- A token that is looked up by its file and name is the only one with them in the list. -/
lemma Valid.qualified?_eq {r : Registry} (h : Valid r) (name file : String) :
    r.qualified? name file = r.toList.find? fun t => t.filePath = file ∧ t.name = name := by
  unfold qualified?
  cases hindex : r.index[(⟨file, name⟩ : TokenKey)]? with
  | none =>
    rw [Option.bind_none, eq_comm, List.find?_eq_none]
    intro t ht
    rw [decide_eq_true_eq, ← Token.key_eq_iff]
    exact h.index_eq_none.mp hindex t ht
  | some i =>
    obtain ⟨t, ht, htkey⟩ := (h.index _ _).mp hindex
    rw [Option.bind_some, slot?_eq_some.mpr ht, eq_comm]
    refine find?_toList ht (decide_eq_true (Token.key_eq_iff.mp htkey)) fun j hj u hu => ?_
    refine decide_eq_false fun hu' => ?_
    have hji := h.slot_unique ht hu ((Token.key_eq_iff.mpr hu').trans htkey.symm)
    omega

/-- The oldest slot of a name has the first token of the list that bears the name. -/
lemma Valid.named_eq {r : Registry} (h : Valid r) (name : String) :
    (r.named.getD name []).head?.bind r.slot? = r.toList.find? fun t => t.name = name := by
  have hnamed := h.named name
  have hsorted := h.sorted name
  cases hslots : r.named.getD name [] with
  | nil =>
    rw [hslots] at hnamed
    rw [List.head?_nil, Option.bind_none, eq_comm, List.find?_eq_none]
    intro t ht
    obtain ⟨i, hi⟩ := mem_toList.mp ht
    rw [decide_eq_true_eq]
    exact fun hname => List.not_mem_nil ((hnamed i).mpr ⟨t, hi, hname⟩)
  | cons i rest =>
    rw [hslots] at hnamed hsorted
    obtain ⟨t, ht, hname⟩ := (hnamed i).mp (List.mem_cons_self ..)
    rw [List.head?_cons, Option.bind_some, slot?_eq_some.mpr ht, eq_comm]
    refine find?_toList ht (decide_eq_true hname) fun j hj u hu => ?_
    refine decide_eq_false fun hu' => ?_
    -- Any other slot of the name comes after the first one.
    rcases List.mem_cons.mp ((hnamed j).mpr ⟨u, hu, hu'⟩) with rfl | hmem
    · omega
    · have hij := (List.pairwise_cons.mp hsorted).1 j hmem
      omega

lemma Valid.size_eq {r : Registry} (h : Valid r) : r.size = r.toList.length := by
  -- The size is that of the index by key, and no key stands in the list twice.
  have hperm : r.index.keys.Perm (r.toList.map Token.key) := by
    rw [List.perm_ext_iff_of_nodup Std.HashMap.nodup_keys h.nodup]
    intro k
    rw [Std.HashMap.mem_keys, h.mem_index, List.mem_map]
  rw [size, ← Std.HashMap.length_keys, hperm.length_eq, List.length_map]

/-- Inserting a file name adds it and nothing else. -/
lemma mem_insertSorted {s f : String} {files : List String} :
    f ∈ insertSorted s files ↔ f = s ∨ f ∈ files := by
  induction files with
  | nil => simp [insertSorted]
  | cons t rest ih =>
    unfold insertSorted
    split_ifs with hst hlt
    · subst hst
      simp
    · simp
    · rw [List.mem_cons, ih, List.mem_cons, or_left_comm]

/-- File names stay sorted, each there once. -/
lemma pairwise_insertSorted (s : String) {files : List String} (h : files.Pairwise (· < ·)) :
    (insertSorted s files).Pairwise (· < ·) := by
  induction files with
  | nil => exact List.pairwise_singleton _ _
  | cons t rest ih =>
    obtain ⟨ht, hrest⟩ := List.pairwise_cons.mp h
    unfold insertSorted
    split_ifs with hst hlt
    · exact h
    · refine List.pairwise_cons.mpr ⟨fun f hf => ?_, h⟩
      rcases List.mem_cons.mp hf with rfl | hf
      · exact hlt
      · exact String.lt_trans hlt (ht f hf)
    · have hts : t < s := by
        rw [← String.not_le]
        exact fun hle => hst (String.le_antisymm hle (String.not_lt.mp hlt))
      refine List.pairwise_cons.mpr ⟨fun f hf => ?_, ih hrest⟩
      rcases mem_insertSorted.mp hf with rfl | hf
      · exact hts
      · exact ht f hf

/-- The files of some items, put into a sorted list one after the other. -/
lemma foldl_insertSorted {α : Type} (file : α → String) (items : List α) {files : List String}
    (h : files.Pairwise (· < ·)) :
    (items.foldl (fun files a => insertSorted (file a) files) files).Pairwise (· < ·) ∧
      ∀ f, f ∈ items.foldl (fun files a => insertSorted (file a) files) files ↔
        f ∈ files ∨ ∃ a ∈ items, file a = f := by
  induction items generalizing files with
  | nil => exact ⟨h, by simp⟩
  | cons a items ih =>
    obtain ⟨hsorted, hmem⟩ := ih (pairwise_insertSorted (file a) h)
    refine ⟨hsorted, fun f => ?_⟩
    rw [List.foldl_cons, hmem, mem_insertSorted]
    simp [or_assoc, or_left_comm, eq_comm]

/-- A query means its text with hyphens for points, unless that starts with two hyphens. -/
lemma queryName_eq_dottedToName_iff (query : String) :
    queryName query = Reference.dottedToName query ↔
      ¬ "--".toList <+: (Reference.dottedToName query).toList := by
  change (Text.afterStart? "--" (Reference.dottedToName query)).getD
    (Reference.dottedToName query) = _ ↔ _
  rw [← Text.startsWith_iff, Text.startsWith, Text.afterStart?]
  cases hdrop : Text.dropStart? "--".toList (Reference.dottedToName query).toList with
  | none => simp
  | some rest =>
    -- Without the two hyphens the text is shorter.
    have hlength := congrArg List.length (Text.dropStart?_eq_some.mp hdrop)
    simp only [Option.map_some, Option.getD_some, Option.isSome_some, not_true_eq_false, iff_false]
    intro heq
    rw [← heq, String.toList_ofList] at hlength
    simp at hlength
    omega

/-- The name that a query means, character by character: hyphens stand for points, and two hyphens
at the front are left out. -/
def meantName (query : String) : String :=
  match query.toList.map fun c => if c = '.' then '-' else c with
  | '-' :: '-' :: name => String.ofList name
  | name => String.ofList name

/-- The registry takes a query for the name that it means. -/
lemma queryName_eq (query : String) : queryName query = meantName query := by
  rw [queryName, meantName, Text.replaceChar]
  generalize query.toList.map (fun c => if c = '.' then '-' else c) = name
  simp only [Text.afterStart?, String.toList_ofList]
  split
  · simp [Text.dropStart?]
  · next hname =>
    -- Without two hyphens at the front there is nothing to leave out.
    have hnone : Text.dropStart? "--".toList name = none := by
      rw [Option.eq_none_iff_forall_ne_some]
      intro rest hrest
      exact hname rest (Text.dropStart?_eq_some.mp hrest)
    rw [hnone]
    rfl

/-- The answers to all queries, read off a list of tokens. -/
structure Refines (r : Registry) (tokens : List Token) : Prop where
  toList : r.toList = tokens
  /-- No two tokens have the same file and name. -/
  nodup : (tokens.map Token.key).Nodup
  ofVersion : ∀ v, r.ofVersion v = tokens.filter fun t => t.version = v
  ofFile : ∀ file, r.ofFile file = tokens.filter fun t => t.filePath = file
  startingWith : ∀ start,
    r.startingWith start = tokens.filter fun t => start.toList <+: t.name.toList
  size : r.size = tokens.length
  sourceFiles_sorted : r.sourceFiles.Pairwise (· < ·)
  mem_sourceFiles : ∀ file,
    file ∈ r.sourceFiles ↔ file ≠ "" ∧ ∃ t ∈ tokens, t.filePath = file
  qualified : ∀ name file,
    r.qualified? name file = tokens.find? fun t => t.filePath = file ∧ t.name = name
  /-- The version of a file is the one that its tokens share. -/
  version_shared : ∀ file v, (∃ t ∈ tokens, t.filePath = file) →
    (∀ t ∈ tokens, t.filePath = file → t.version = v) → r.fileVersion file = v
  /-- A file without tokens, or with tokens of several versions, has no known version. -/
  version_unknown : ∀ file,
    (¬ ∃ v, (∃ t ∈ tokens, t.filePath = file) ∧
      ∀ t ∈ tokens, t.filePath = file → t.version = v) → r.fileVersion file = .unknown
  /-- A query finds a token without a file by its exact name, else the first one with the name that
  the query means, else the first one with the CSS variable. -/
  find : ∀ query, r.find? query =
    ((tokens.find? fun t => t.filePath = "" ∧ t.name = query).or
      (tokens.find? fun t => t.name = meantName query)).or
        (tokens.find? fun t => t.cssVariable = query)

lemma mem_ofFile {r : Registry} {file : String} {t : Token} :
    t ∈ r.ofFile file ↔ t ∈ r.toList ∧ t.filePath = file := by
  rw [ofFile, List.mem_filter, decide_eq_true_eq]

/-- A version that all tokens of a file share is the version of the file. -/
lemma fileVersion_of_shared {r : Registry} {file : String} {v : Version}
    (hsome : ∃ t ∈ r.toList, t.filePath = file)
    (hall : ∀ t ∈ r.toList, t.filePath = file → t.version = v) : r.fileVersion file = v := by
  have hversion : ∀ t ∈ r.ofFile file, t.version = v :=
    fun t ht => hall t (mem_ofFile.mp ht).1 (mem_ofFile.mp ht).2
  unfold fileVersion
  split
  · next hnil =>
    obtain ⟨t, ht, hfile⟩ := hsome
    have hmem := mem_ofFile.mpr ⟨ht, hfile⟩
    rw [hnil] at hmem
    cases hmem
  · next t rest hcons =>
    rw [hcons] at hversion
    obtain ⟨ht, hrest⟩ := List.forall_mem_cons.mp hversion
    rw [if_pos, ht]
    rw [List.all_eq_true]
    intro u hu
    exact decide_eq_true ((hrest u hu).trans ht.symm)

/-- A file whose tokens share no version has an unknown one. -/
lemma fileVersion_of_not_shared {r : Registry} {file : String}
    (hnone : ¬ ∃ v, (∃ t ∈ r.toList, t.filePath = file) ∧
      ∀ t ∈ r.toList, t.filePath = file → t.version = v) : r.fileVersion file = .unknown := by
  unfold fileVersion
  split
  · rfl
  · next t rest hcons =>
    have hmem : ∀ u, u ∈ t :: rest ↔ u ∈ r.toList ∧ u.filePath = file :=
      fun u => hcons ▸ mem_ofFile
    split_ifs with hall
    · -- All tokens have the version of the first one, so the version is shared.
      refine absurd ⟨t.version, ⟨t, (hmem t).mp (List.mem_cons_self ..)⟩,
        fun u hu hfile => ?_⟩ hnone
      rw [List.all_eq_true] at hall
      rcases List.mem_cons.mp ((hmem u).mpr ⟨hu, hfile⟩) with rfl | hrest
      · rfl
      · exact of_decide_eq_true (hall u hrest)
    · rfl

/-- The three ways in which a query finds a token, one after the other. -/
lemma Valid.find?_eq {r : Registry} (h : Valid r) (query : String) :
    r.find? query =
      ((r.toList.find? fun t => t.filePath = "" ∧ t.name = query).or
        (r.toList.find? fun t => t.name = queryName query)).or
          (r.toList.find? fun t => t.cssVariable = query) := by
  rw [find?, h.qualified?_eq, h.named_eq]
  cases r.toList.find? fun t => t.filePath = "" ∧ t.name = query with
  | some t => rfl
  | none =>
    cases r.toList.find? fun t => t.name = queryName query with
    | some t => rfl
    | none => rfl

/-- A registry whose indexes agree with its slots answers as its list does. -/
lemma Valid.refines {r : Registry} (h : Valid r) : Refines r r.toList := by
  obtain ⟨hsorted, hmem⟩ :=
    foldl_insertSorted Token.filePath (r.toList.filter fun t => !t.filePath.isEmpty)
      List.Pairwise.nil
  constructor
  · rfl
  · exact h.nodup
  · exact fun _ => rfl
  · exact fun _ => rfl
  · intro start
    refine List.filter_congr fun t _ => ?_
    rw [Bool.eq_iff_iff, Text.startsWith_iff, decide_eq_true_eq]
  · exact h.size_eq
  · exact hsorted
  · intro file
    rw [sourceFiles, hmem]
    simp only [List.not_mem_nil, false_or, List.mem_filter, Bool.not_eq_true',
      String.isEmpty_eq_false_iff]
    constructor
    · rintro ⟨t, ⟨ht, hne⟩, rfl⟩
      exact ⟨hne, t, ht, rfl⟩
    · rintro ⟨hne, t, ht, rfl⟩
      exact ⟨t, ⟨ht, hne⟩, rfl⟩
  · exact h.qualified?_eq
  · exact fun _ _ => fileVersion_of_shared
  · exact fun _ => fileVersion_of_not_shared
  · intro query
    rw [h.find?_eq, queryName_eq]

/-! ## Sequences of commands -/

/-- An operation that changes a registry. -/
inductive Command where
  | add (t : Token)
  | remove (name : String)
  | removeFile (file : String)
  | clear
  | replaceAll (tokens : List Token)

/-- What a command answers. -/
inductive Answer where
  | done
  | removed (count : Nat)
  | refused (e : Error)

/-- A command on a registry. One that is refused leaves the registry that there was. -/
def Command.run (r : Registry) : Command → Registry × Answer
  | .add t =>
    match r.add t with
    | .ok r' => (r', .done)
    | .error e => (r, .refused e)
  | .remove name =>
    match r.remove name with
    | .ok r' => (r', .done)
    | .error e => (r, .refused e)
  | .removeFile file => ((r.removeFile file).1, .removed (r.removeFile file).2)
  | .clear => (empty, .done)
  | .replaceAll tokens => (ofList tokens, .done)

/-- The same command on a list of tokens. -/
def Command.runList (tokens : List Token) : Command → List Token × Answer
  | .add t =>
    if t.name = "" then (tokens, .refused (.unnamedToken t.filePath))
    else (inserted tokens t, .done)
  | .remove name =>
    if ∃ t ∈ tokens, t.filePath = "" ∧ t.name = name then
      (tokens.filter fun t => ¬ (t.filePath = "" ∧ t.name = name), .done)
    else (tokens, .refused (.tokenNotFound name))
  | .removeFile file =>
    (tokens.filter fun t => t.filePath ≠ file,
      .removed (tokens.filter fun t => t.filePath = file).length)
  | .clear => ([], .done)
  | .replaceAll new => (new.foldl inserted [], .done)

/-- Commands one after the other, with what they answer. -/
def runAll {σ : Type} (step : σ → Command → σ × Answer) (s : σ) : List Command → σ × List Answer
  | [] => (s, [])
  | c :: rest =>
    let after := runAll step (step s c).1 rest
    (after.1, (step s c).2 :: after.2)

/-- One command does to a registry what it does to its list. -/
lemma Command.run_spec {r : Registry} (h : Valid r) (c : Command) :
    Valid (c.run r).1 ∧
      ((c.run r).1.toList, (c.run r).2) = c.runList r.toList := by
  cases c with
  | add t =>
    simp only [run, runList, Registry.add]
    by_cases hname : t.name = ""
    · simp [hname, h]
    · rw [if_neg (by simpa using hname), if_neg hname]
      exact ⟨h.put t, by rw [toList_put h]⟩
  | remove name =>
    have hfound : r.index.contains ⟨"", name⟩ = true ↔
        ∃ t ∈ r.toList, t.filePath = "" ∧ t.name = name := by
      rw [Std.HashMap.contains_iff_mem, h.mem_index]
      simp only [Token.key_eq_iff]
    simp only [run, runList, Registry.remove]
    by_cases hmem : ∃ t ∈ r.toList, t.filePath = "" ∧ t.name = name
    · rw [if_pos (hfound.mpr hmem), if_pos hmem]
      refine ⟨h.erase _, ?_⟩
      rw [toList_erase h]
      simp only [ne_eq, Token.key_eq_iff]
    · rw [if_neg (mt hfound.mp hmem), if_neg hmem]
      exact ⟨h, rfl⟩
  | removeFile file => exact ⟨h.removeFile file, by rw [run, runList, toList_removeFile h]; rfl⟩
  | clear => exact ⟨valid_empty, rfl⟩
  | replaceAll tokens =>
    obtain ⟨hvalid, hlist⟩ := foldl_put valid_empty tokens
    exact ⟨hvalid, by rw [run, runList, ofList, hlist]; rfl⟩

/-- A run on a registry answers as the run on its list, and ends in a registry with that list. -/
lemma runAll_spec {r : Registry} (h : Valid r) (commands : List Command) :
    Valid (runAll Command.run r commands).1 ∧
      ((runAll Command.run r commands).1.toList, (runAll Command.run r commands).2)
        = runAll Command.runList r.toList commands := by
  induction commands generalizing r with
  | nil => exact ⟨h, rfl⟩
  | cons c rest ih =>
    obtain ⟨hvalid, hstep⟩ := Command.run_spec h c
    obtain ⟨hvalid', hrest⟩ := ih hvalid
    refine ⟨hvalid', ?_⟩
    simp only [runAll]
    rw [← hstep, ← hrest]

/-- A command that is refused changes nothing. -/
lemma Command.runList_refused {tokens : List Token} {c : Command} {e : Error}
    (h : (c.runList tokens).2 = .refused e) : (c.runList tokens).1 = tokens := by
  cases c with
  | add t =>
    simp only [runList] at h ⊢
    split_ifs at h ⊢
    rfl
  | remove name =>
    simp only [runList] at h ⊢
    split_ifs at h ⊢
    rfl
  | removeFile file => cases h
  | clear => cases h
  | replaceAll new => cases h

end Registry

end DesignTokens
