import Mathlib.Data.List.Nodup

/-!
# SqlalchemyCollectd.Lib.OrderedDict

**Insertion-ordered dictionaries.** An `OrderedDict κ ν` is a list of entries in
insertion order whose keys are pairwise distinct; distinctness is a field, so no
lemma about a program that uses one has to carry it along.

The operations are those of a mapping that remembers its insertion order:
lookup (`get?`), assignment (`set`: in place for a known key, at the end for a
new one), deletion of one entry (`erase`) or of every entry that fails a test
(`filter`) and the keys in order (`keys`). Every fact a client needs about them is stated through `get?`,
`keys` and `items`; nothing outside this file looks at the entry list.
-/

universe u v

/-- A finite map whose entries are listed in insertion order. -/
structure OrderedDict (κ : Type u) (ν : Type v) where
  /-- The entries, oldest insertion first. -/
  entries : List (κ × ν)
  /-- No key occurs twice. -/
  nodup : (entries.map Prod.fst).Nodup

namespace OrderedDict

variable {κ : Type u} {ν : Type v}

/-- The dictionary with no entries. -/
def empty : OrderedDict κ ν := ⟨[], List.nodup_nil⟩

instance : Inhabited (OrderedDict κ ν) := ⟨empty⟩

/-- The keys in insertion order. -/
def keys (d : OrderedDict κ ν) : List κ := d.entries.map Prod.fst

/-- The entries in insertion order. -/
def items (d : OrderedDict κ ν) : List (κ × ν) := d.entries

theorem map_fst_items (d : OrderedDict κ ν) : d.items.map Prod.fst = d.keys := rfl

theorem keys_nodup (d : OrderedDict κ ν) : d.keys.Nodup := d.nodup

@[simp] theorem keys_empty : (empty : OrderedDict κ ν).keys = [] := rfl

/-- Keep the entries that satisfy `p`. -/
def filter (p : κ → ν → Bool) (d : OrderedDict κ ν) : OrderedDict κ ν where
  entries := d.entries.filter fun e => p e.1 e.2
  nodup := d.nodup.sublist (List.filter_sublist.map Prod.fst)

theorem filter_filter_self (p : κ → ν → Bool) (d : OrderedDict κ ν) :
    (d.filter p).filter p = d.filter p := by
  unfold filter
  congr 1
  rw [List.filter_filter]
  exact List.filter_congr fun _ _ => Bool.and_self _

/-- Two dictionaries with the same entries are the same. -/
theorem ext_items {d d' : OrderedDict κ ν} (h : d.items = d'.items) : d = d' := by
  obtain ⟨es, hnd⟩ := d
  obtain rfl : es = d'.entries := h
  rfl

theorem items_filter (p : κ → ν → Bool) (d : OrderedDict κ ν) :
    (d.filter p).items = d.items.filter fun e => p e.1 e.2 := rfl

variable [DecidableEq κ]

/-- The value stored under `k`, if any. -/
def get? (d : OrderedDict κ ν) (k : κ) : Option ν :=
  (d.entries.find? fun e => e.1 = k).map Prod.snd

/-- Assignment on entry lists: replace in place, or append. -/
def setEntries (k : κ) (v : ν) : List (κ × ν) → List (κ × ν)
  | [] => [(k, v)]
  | e :: es => if e.1 = k then (k, v) :: es else e :: setEntries k v es

theorem map_fst_setEntries (k : κ) (v : ν) (es : List (κ × ν)) :
    (setEntries k v es).map Prod.fst =
      if k ∈ es.map Prod.fst then es.map Prod.fst else es.map Prod.fst ++ [k] := by
  induction es with
  | nil => rfl
  | cons e es ih =>
      by_cases he : e.1 = k
      · simp [setEntries, he]
      · have hk : ¬k = e.1 := fun h => he h.symm
        simp only [setEntries, if_neg he, List.map_cons, ih, List.mem_cons, hk, false_or]
        split <;> rfl

/-- `d[k] = v`. -/
def set (d : OrderedDict κ ν) (k : κ) (v : ν) : OrderedDict κ ν where
  entries := setEntries k v d.entries
  nodup := by
    rw [map_fst_setEntries]
    split
    · exact d.nodup
    · rename_i hk
      exact List.nodup_append.mpr ⟨d.nodup, List.nodup_singleton k,
        fun a ha b hb hab => hk (by rw [List.mem_singleton] at hb; exact hb ▸ hab ▸ ha)⟩

/-! ### Lookup after each operation -/

@[simp] theorem get?_empty (k : κ) : (empty : OrderedDict κ ν).get? k = none := rfl

theorem find?_setEntries (k k' : κ) (v : ν) (es : List (κ × ν)) :
    (setEntries k v es).find? (fun e => e.1 = k') =
      if k' = k then some (k, v) else es.find? fun e => e.1 = k' := by
  induction es with
  | nil =>
      by_cases h : k' = k
      · simp [setEntries, h]
      · simp [setEntries, h, Ne.symm h]
  | cons e es ih =>
      by_cases he : e.1 = k
      · by_cases h : k' = k
        · simp [setEntries, he, h]
        · have hek : ¬e.1 = k' := fun h' => h (h'.symm.trans he)
          simp [setEntries, he, h, Ne.symm h]
      · by_cases hek : e.1 = k'
        · have h : ¬k' = k := fun h => he (hek.trans h)
          simp [setEntries, hek, h]
        · simp only [setEntries, if_neg he, List.find?_cons, hek, decide_false, ih]

theorem get?_set (d : OrderedDict κ ν) (k k' : κ) (v : ν) :
    (d.set k v).get? k' = if k' = k then some v else d.get? k' := by
  unfold get? set
  rw [find?_setEntries]
  split <;> rfl

@[simp] theorem get?_set_self (d : OrderedDict κ ν) (k : κ) (v : ν) :
    (d.set k v).get? k = some v := by
  rw [get?_set, if_pos rfl]

theorem get?_set_of_ne (d : OrderedDict κ ν) {k k' : κ} (v : ν) (h : k' ≠ k) :
    (d.set k v).get? k' = d.get? k' := by
  rw [get?_set, if_neg h]

/-- An entry is exactly what lookup finds: keys are distinct. -/
theorem get?_eq_some_iff {d : OrderedDict κ ν} {k : κ} {v : ν} :
    d.get? k = some v ↔ (k, v) ∈ d.entries := by
  obtain ⟨es, hnd⟩ := d
  simp only [get?]
  induction es with
  | nil => simp
  | cons e es ih =>
      rw [List.map_cons, List.nodup_cons] at hnd
      by_cases he : e.1 = k
      · have hnot : ∀ w, (k, w) ∉ es := fun w hw =>
          hnd.1 (he ▸ List.mem_map_of_mem (f := Prod.fst) hw)
        simp [he, hnot, Prod.ext_iff, eq_comm]
      · have hne : (k, v) ≠ e := fun h => he (congrArg Prod.fst h).symm
        rw [List.find?_cons_of_neg (by simpa using he), List.mem_cons, ih hnd.2]
        simp [hne]

theorem mem_items_iff {d : OrderedDict κ ν} {k : κ} {v : ν} :
    (k, v) ∈ d.items ↔ d.get? k = some v :=
  get?_eq_some_iff.symm

theorem get?_filter (p : κ → ν → Bool) (d : OrderedDict κ ν) (k : κ) :
    (d.filter p).get? k = (d.get? k).filter (p k) := by
  ext v
  rw [get?_eq_some_iff, Option.filter_eq_some_iff, get?_eq_some_iff]
  simp [filter]

/-- `del d[k]`, for a key that is there. -/
def erase (d : OrderedDict κ ν) (k : κ) : OrderedDict κ ν := d.filter fun k' _ => k' ≠ k

theorem get?_erase (d : OrderedDict κ ν) (k k' : κ) :
    (d.erase k).get? k' = if k' = k then none else d.get? k' := by
  rw [erase, get?_filter]
  by_cases h : k' = k
  · simp [h]
  · rw [if_neg h]
    cases d.get? k' with
    | none => rfl
    | some v => simp [h]

/-- What `del d[k]` leaves of the entries. -/
theorem items_erase {d : OrderedDict κ ν} {before after : List (κ × ν)} {k : κ} {v : ν}
    (h : d.items = before ++ (k, v) :: after) : (d.erase k).items = before ++ after := by
  have hnodup : (before ++ (k, v) :: after).map Prod.fst |>.Nodup := h ▸ d.nodup
  rw [List.map_append, List.map_cons, List.nodup_middle, List.nodup_cons, ← List.map_append] at hnodup
  have hne : ∀ e ∈ before ++ after, decide (e.1 ≠ k) = true := by
    intro e he
    exact decide_eq_true fun heq => hnodup.1 (List.mem_map.mpr ⟨e, he, heq⟩)
  rw [erase, items_filter, h, List.filter_append, List.filter_cons_of_neg (by simp),
    ← List.filter_append]
  exact List.filter_eq_self.mpr hne

/-! ### Keys -/

theorem mem_keys_iff {d : OrderedDict κ ν} {k : κ} : k ∈ d.keys ↔ (d.get? k).isSome := by
  rw [Option.isSome_iff_exists]
  simp only [get?_eq_some_iff, keys, List.mem_map, Prod.exists, exists_and_right,
    exists_eq_right]

theorem not_mem_keys_iff {d : OrderedDict κ ν} {k : κ} : k ∉ d.keys ↔ d.get? k = none := by
  rw [mem_keys_iff, Option.isSome_iff_ne_none, not_not]

omit [DecidableEq κ] in
theorem mem_keys_of_mem_items {d : OrderedDict κ ν} {e : κ × ν} (h : e ∈ d.items) :
    e.1 ∈ d.keys :=
  List.mem_map_of_mem h

/-- Dictionaries with the same contents have the same keys, in some order. -/
theorem perm_keys {d d' : OrderedDict κ ν} (h : ∀ k, d.get? k = d'.get? k) :
    d.keys.Perm d'.keys := by
  refine (List.perm_ext_iff_of_nodup d.keys_nodup d'.keys_nodup).mpr fun k => ?_
  rw [mem_keys_iff, mem_keys_iff, h]

theorem keys_set (d : OrderedDict κ ν) (k : κ) (v : ν) :
    (d.set k v).keys = if k ∈ d.keys then d.keys else d.keys ++ [k] :=
  map_fst_setEntries k v d.entries

/-- Assignment to a known key does not change the size. -/
theorem length_items_set_of_mem {d : OrderedDict κ ν} {k : κ} (h : k ∈ d.keys) (v : ν) :
    (d.set k v).items.length = d.items.length := by
  rw [← List.length_map Prod.fst, ← d.items.length_map Prod.fst, map_fst_items,
    map_fst_items, keys_set, if_pos h]

theorem length_items_set_of_not_mem {d : OrderedDict κ ν} {k : κ} (h : k ∉ d.keys) (v : ν) :
    (d.set k v).items.length = d.items.length + 1 := by
  rw [← List.length_map Prod.fst, ← d.items.length_map Prod.fst, map_fst_items,
    map_fst_items, keys_set, if_neg h, List.length_append, List.length_singleton]

/-! ### Entries -/

theorem items_set_of_not_mem {d : OrderedDict κ ν} {k : κ} (h : k ∉ d.keys) (v : ν) :
    (d.set k v).items = d.items ++ [(k, v)] := by
  have happend : ∀ es : List (κ × ν), k ∉ es.map Prod.fst →
      setEntries k v es = es ++ [(k, v)] := by
    intro es hes
    induction es with
    | nil => rfl
    | cons e es ih =>
        rw [List.map_cons, List.mem_cons, not_or] at hes
        rw [setEntries, if_neg (Ne.symm hes.1), ih hes.2, List.cons_append]
  exact happend d.entries h

/-- Assignment to a known key, where the entries tabulate a function. -/
theorem items_set_of_mem {d : OrderedDict κ ν} {ks : List κ} {f : κ → ν} {k : κ}
    (hitems : d.items = ks.map fun k => (k, f k)) (hk : k ∈ ks) (v : ν) :
    (d.set k v).items = ks.map fun k' => (k', if k' = k then v else f k') := by
  have hupdate : ∀ ks : List κ, ks.Nodup → k ∈ ks →
      setEntries k v (ks.map fun k => (k, f k)) =
        ks.map fun k' => (k', if k' = k then v else f k') := by
    intro ks hnodup hk
    induction ks with
    | nil => cases hk
    | cons k' ks ih =>
        rw [List.nodup_cons] at hnodup
        rw [List.map_cons, List.map_cons, setEntries]
        by_cases hhead : k' = k
        · subst hhead
          have htail : ∀ k ∈ ks, ¬k = k' := fun k hk h => hnodup.1 (h ▸ hk)
          simp only [if_true, List.cons.injEq, true_and]
          exact List.map_congr_left fun k hk => by rw [if_neg (htail k hk)]
        · rw [if_neg hhead, if_neg hhead]
          rw [ih hnodup.2 ((List.mem_cons.mp hk).resolve_left (Ne.symm hhead))]
  have hkeys : d.keys = ks := by
    rw [← map_fst_items, hitems, List.map_map]
    exact List.map_id ks
  change setEntries k v d.items = _
  rw [hitems]
  exact hupdate ks (hkeys ▸ d.keys_nodup) hk

end OrderedDict
