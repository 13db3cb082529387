import SqlalchemyCollectd.Protocol.Values

/-!
# SqlalchemyCollectd.Protocol.Sum

What `sum()` of a list of `Values` objects is.

A slot on which all summands agree survives (`sum_slot`), and the values are
summed position by position in the order of the list, up to the shortest list
(`sum_values_getElem?`). Addition is any operation: for floats the order counts.
-/

namespace SqlalchemyCollectd

/-- A comprehension none of whose elements is missing. -/
theorem mapM_eq_filterMap {β γ : Type} {f : β → Option γ} {xs : List β}
    (h : ∀ x ∈ xs, (f x).isSome) : xs.mapM f = some (xs.filterMap f) := by
  induction xs with
  | nil => rfl
  | cons x xs ih =>
      obtain ⟨y, hy⟩ := Option.isSome_iff_exists.mp (h x List.mem_cons_self)
      rw [List.mapM_cons, ih fun z hz => h z (List.mem_cons_of_mem x hz), hy,
        List.filterMap_cons_some hy]
      rfl

theorem eq_filterMap_of_mapM {β γ : Type} {f : β → Option γ} {xs : List β} {ys : List γ}
    (h : xs.mapM f = some ys) : (∀ x ∈ xs, (f x).isSome) ∧ ys = xs.filterMap f := by
  induction xs generalizing ys with
  | nil => exact ⟨by simp, (Option.some.inj h).symm⟩
  | cons x xs ih =>
      rw [List.mapM_cons] at h
      obtain ⟨y, hy, h⟩ := Option.bind_eq_some_iff.mp h
      obtain ⟨ys', hys, h⟩ := Option.bind_eq_some_iff.mp h
      obtain ⟨hall, rfl⟩ := ih hys
      refine ⟨List.forall_mem_cons.mpr ⟨by rw [hy, Option.isSome_some], hall⟩, ?_⟩
      rw [List.filterMap_cons_some hy]
      exact (Option.some.inj h).symm

/-- A comprehension all of whose elements are of one form. -/
theorem exists_map_of_filterMap {β γ δ : Type} {f : β → Option γ} {form : δ → γ} {xs : List β}
    (h : ∀ x ∈ xs, ∃ d, f x = some (form d)) :
    ∃ ds : List δ, ds.length = xs.length ∧ xs.filterMap f = ds.map form := by
  induction xs with
  | nil => exact ⟨[], rfl, rfl⟩
  | cons x xs ih =>
      obtain ⟨d, hd⟩ := h x List.mem_cons_self
      obtain ⟨ds, hlength, hds⟩ := ih fun y hy => h y (List.mem_cons_of_mem x hy)
      refine ⟨d :: ds, by rw [List.length_cons, hlength, List.length_cons], ?_⟩
      rw [List.filterMap_cons_some hd, hds, List.map_cons]

variable {α : Type} [Add α] [Zero α]

/-- Python's `sum()` of a list: `0 + x₀ + x₁ + …`, the first addition with the zero
on the right, as `Values.__radd__` has it. -/
def pySum : List α → α
  | [] => 0
  | x :: xs => xs.foldl (· + ·) (x + 0)

/-- Over a commutative monoid this is the sum. -/
theorem pySum_eq_sum {M : Type} [AddCommMonoid M] (xs : List M) : pySum xs = xs.sum := by
  cases xs with
  | nil => rfl
  | cons x xs =>
      have hfold : ∀ (xs : List M) (a : M), xs.foldl (· + ·) a = a + xs.sum := by
        intro xs
        induction xs with
        | nil => intro a; rw [List.foldl_nil, List.sum_nil, add_zero]
        | cons y ys ih => intro a; rw [List.foldl_cons, ih, List.sum_cons, add_assoc]
      rw [pySum, hfold, add_zero, List.sum_cons]

/-! ### Sums of Python numbers -/

/-- A sum of ints is exact. -/
theorem pySum_int (ns : List ℤ) : pySum (ns.map Number.int) = .int ns.sum := by
  have hfold : ∀ (ns : List ℤ) (a : ℤ),
      (ns.map Number.int).foldl (· + ·) (.int a) = .int (a + ns.sum) := by
    intro ns
    induction ns with
    | nil => intro a; rw [List.map_nil, List.foldl_nil, List.sum_nil, add_zero]
    | cons n ns ih =>
        intro a
        rw [List.map_cons, List.foldl_cons, Number.int_add_int, ih, List.sum_cons, add_assoc]
  cases ns with
  | nil => rfl
  | cons n ns =>
      rw [List.map_cons, pySum, Number.zero_def, Number.int_add_int, add_zero, hfold, List.sum_cons]

/-- A sum that starts with a float is a float. -/
theorem exists_float_pySum (y : Float) (ys : List Float) :
    ∃ z, pySum ((y :: ys).map Number.float) = .float z := by
  have hfold : ∀ (ys : List Float) (z : Float),
      ∃ z', (ys.map Number.float).foldl (· + ·) (.float z) = .float z' := by
    intro ys
    induction ys with
    | nil => exact fun z => ⟨z, rfl⟩
    | cons y ys ih => exact fun z => ih (z + y)
  exact hfold ys _

/-- A sum of not too many numbers that are not too large. -/
theorem sum_map_lt {β : Type} {xs : List β} {n : β → ℕ} {size bound : ℕ} (hsize : 0 < size)
    (hbound : 0 < bound) (hfew : xs.length ≤ size) (hsmall : ∀ x ∈ xs, n x < bound) :
    (xs.map n).sum < size * bound := by
  have hle := List.sum_le_card_nsmul (xs.map n) (bound - 1)
    (List.forall_mem_map.mpr fun x hx => Nat.le_sub_one_of_lt (hsmall x hx))
  rw [List.length_map, smul_eq_mul] at hle
  calc (xs.map n).sum
    _ ≤ xs.length * (bound - 1) := hle
    _ ≤ size * (bound - 1) := Nat.mul_le_mul_right _ hfew
    _ < size * bound := Nat.mul_lt_mul_of_pos_left (Nat.sub_one_lt_of_lt hbound) hsize

/-- **A sum of counts below `2 ^ 53` is exact**, whatever their order; what is missing
counts as nothing. -/
theorem counts_pySum {β : Type} {f : β → Option Number} {n : β → ℕ} {xs : List β}
    (hcounts : ∀ x ∈ xs, match f x with
      | some y => y.Counts (n x)
      | none => n x = 0)
    (hsmall : (xs.map n).sum < 2 ^ 53) : (pySum (xs.filterMap f)).Counts (xs.map n).sum := by
  have hfold : ∀ {xs : List β} {acc : Number} {a : ℕ}, acc.Counts a →
      (∀ x ∈ xs, match f x with
        | some y => y.Counts (n x)
        | none => n x = 0) →
      a + (xs.map n).sum < 2 ^ 53 →
        ((xs.filterMap f).foldl (· + ·) acc).Counts (a + (xs.map n).sum) := by
    intro xs
    induction xs with
    | nil => exact fun hacc _ _ => hacc
    | cons x xs ih =>
        intro acc a hacc hcounts hsmall
        have hx := hcounts x List.mem_cons_self
        rw [List.map_cons, List.sum_cons] at hsmall ⊢
        cases hfx : f x with
        | none =>
            rw [hfx] at hx
            rw [List.filterMap_cons_none hfx, hx, zero_add]
            exact ih hacc (fun y hy => hcounts y (List.mem_cons_of_mem x hy)) (by omega)
        | some y =>
            rw [hfx] at hx
            rw [List.filterMap_cons_some hfx, List.foldl_cons, ← add_assoc]
            exact ih (hacc.add hx (by omega)) (fun y hy => hcounts y (List.mem_cons_of_mem x hy))
              (by omega)
  induction xs with
  | nil => exact Or.inl rfl
  | cons x xs ih =>
      have hx := hcounts x List.mem_cons_self
      have hrest := fun y hy => hcounts y (List.mem_cons_of_mem x hy)
      rw [List.map_cons, List.sum_cons] at hsmall ⊢
      cases hfx : f x with
      | none =>
          rw [hfx] at hx
          rw [List.filterMap_cons_none hfx, hx, zero_add]
          exact ih hrest (by omega)
      | some y =>
          rw [hfx] at hx
          rw [List.filterMap_cons_some hfx, pySum]
          exact hfold (hx.add (b := 0) (Or.inl rfl) (by omega)) hrest hsmall

namespace Values

omit [Zero α] in
theorem foldl_add_slot {β : Type} [DecidableEq β] (slot : Values α → Option β)
    (hadd : ∀ a b : Values α, slot (a.add b) = coalesce (slot a) (slot b)) :
    ∀ {rest : List (Values α)} {acc : Values α}, (∀ v ∈ rest, slot v = slot acc) →
      slot (rest.foldl add acc) = slot acc := by
  intro rest
  induction rest with
  | nil => intro acc _; rfl
  | cons v rest ih =>
      intro acc h
      have hstep : slot (acc.add v) = slot acc := by
        rw [hadd, h v List.mem_cons_self, coalesce_self]
      rw [List.foldl_cons, ih fun w hw => (h w (List.mem_cons_of_mem v hw)).trans hstep.symm,
        hstep]

/-- A slot on which all summands agree keeps its value. -/
theorem sum_slot {β : Type} [DecidableEq β] (slot : Values α → Option β)
    (hadd : ∀ a b : Values α, slot (a.add b) = coalesce (slot a) (slot b))
    (hnumber : ∀ (a : Values α) (x : α), slot (a.addNumber x) = slot a)
    {first : Values α} {rest : List (Values α)} (h : ∀ v ∈ rest, slot v = slot first) :
    slot (sum first rest) = slot first := by
  rw [sum, foldl_add_slot slot hadd fun v hv => (h v hv).trans (hnumber first 0).symm, hnumber]

/-- Otherwise a slot of the sum is empty, or as one of the summands has it. -/
theorem sum_slot_mem {β : Type} [DecidableEq β] (slot : Values α → Option β)
    (hadd : ∀ a b : Values α, slot (a.add b) = coalesce (slot a) (slot b))
    (hnumber : ∀ (a : Values α) (x : α), slot (a.addNumber x) = slot a) (first : Values α)
    (rest : List (Values α)) :
    slot (sum first rest) = none ∨ ∃ v ∈ first :: rest, slot (sum first rest) = slot v := by
  have hfold : ∀ (rest : List (Values α)) (acc : Values α),
      slot (rest.foldl add acc) = none ∨ slot (rest.foldl add acc) = slot acc := by
    intro rest
    induction rest with
    | nil => exact fun acc => Or.inr rfl
    | cons v rest ih =>
        intro acc
        rw [List.foldl_cons]
        rcases ih (acc.add v) with hnone | hsame
        · exact Or.inl hnone
        · rw [hsame, hadd, coalesce]
          split
          · exact Or.inr rfl
          · exact Or.inl rfl
  rw [sum]
  rcases hfold rest (first.addNumber 0) with hnone | hsame
  · exact Or.inl hnone
  · exact Or.inr ⟨first, List.mem_cons_self, hsame.trans (hnumber first 0)⟩

omit [Zero α] in
theorem foldl_add_values_getElem? (i : ℕ) :
    ∀ (rest : List (Values α)) (acc : Values α),
      (rest.foldl add acc).values[i]? =
        acc.values[i]?.bind fun a =>
          (rest.mapM fun v => v.values[i]?).map fun xs => xs.foldl (· + ·) a := by
  intro rest
  induction rest with
  | nil => intro acc; cases h : acc.values[i]? <;> simp [h]
  | cons v rest ih =>
      intro acc
      have hadd : (acc.add v).values[i]? =
          acc.values[i]?.bind fun a => v.values[i]?.map fun b => a + b := by
        rw [add, List.getElem?_zipWith]
        cases acc.values[i]? <;> cases v.values[i]? <;> rfl
      rw [List.foldl_cons, ih, hadd, List.mapM_cons]
      cases acc.values[i]? with
      | none => rfl
      | some a =>
          cases v.values[i]? with
          | none => rfl
          | some b =>
              cases rest.mapM fun v => v.values[i]? with
              | none => rfl
              | some xs => rfl

/-- **Values are summed position by position**, at the positions that all have. -/
theorem sum_values_getElem? (first : Values α) (rest : List (Values α)) (i : ℕ) :
    (sum first rest).values[i]? =
      ((first :: rest).mapM fun v => v.values[i]?).map pySum := by
  rw [sum, foldl_add_values_getElem?, addNumber, List.getElem?_map, List.mapM_cons]
  cases first.values[i]? with
  | none => rfl
  | some a =>
      cases rest.mapM fun v => v.values[i]? with
      | none => rfl
      | some xs => rfl

end Values

end SqlalchemyCollectd
