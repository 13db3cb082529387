import SqlalchemyCollectd.Lib.Binary64

/-!
# SqlalchemyCollectd.Python

The part of Python the program is written in: the exceptions its functions
raise, `int()` on a number, and the two kinds of number a statistic can be.

A `Number` is an unbounded `int` or a `float`; its arithmetic is Python's (exact
on two ints, IEEE as soon as a float takes part) and its order is the exact one
that Python uses between ints and floats. Times and intervals are read as exact
rationals (`ℚ`): they are ints on the wire and finite floats when they come from
the clock.
-/

namespace SqlalchemyCollectd

/-- The exceptions that the modelled functions raise. The two the source raises
itself carry what their message shows. -/
inductive PyError
  /-- `struct.error`: a value out of range for its format, or a buffer too short. -/
  | structError
  /-- `OverflowError`: an int too large for a double. -/
  | overflowError
  /-- `UnicodeEncodeError` and `UnicodeDecodeError`. -/
  | unicodeError
  | keyError
  | indexError
  /-- `TypeError` from `int(None)`. -/
  | typeError
  | zeroDivisionError
  | assertionError
  /-- `TypeError(f"don't know type: {type_name}")`. -/
  | unknownType (typeName : Option String)
  /-- `ValueError` of `TimeBucket._get_bucket`: bucket timestamp is now
  `lastTimestamp`, greater than given timestamp of `timestamp` plus interval
  `oldestToAccept`. -/
  | valueError (lastTimestamp timestamp : ℚ) (oldestToAccept : ℤ)
  deriving DecidableEq, Repr

/-! ### Generators -/

/-- What a generator that was run to its end has produced: the values it yielded
and the exception that ended it, if one did. -/
structure Yielded (β : Type) where
  values : List β := []
  raised : Option PyError := none
  deriving DecidableEq

namespace Yielded

variable {β γ : Type}

/-- One generator after the other; an exception ends both. -/
def andThen (a b : Yielded β) : Yielded β :=
  match a.raised with
  | some _ => a
  | none => ⟨a.values ++ b.values, b.raised⟩

/-- `for x in xs: yield from f(x)`. -/
def collect (f : γ → Yielded β) : List γ → Yielded β
  | [] => {}
  | x :: xs => (f x).andThen (collect f xs)

@[simp] theorem mk_andThen (values : List β) (b : Yielded β) :
    andThen ⟨values, none⟩ b = ⟨values ++ b.values, b.raised⟩ := rfl

theorem andThen_of_raised {a : Yielded β} {e : PyError} (h : a.raised = some e) (b : Yielded β) :
    a.andThen b = a := by
  rw [andThen, h]

@[simp] theorem empty_andThen (a : Yielded β) : andThen {} a = a := rfl

theorem andThen_assoc (a b c : Yielded β) :
    (a.andThen b).andThen c = a.andThen (b.andThen c) := by
  obtain ⟨as, _ | e⟩ := a
  · obtain ⟨bs, _ | e⟩ := b
    · simp
    · rfl
  · rfl

theorem andThen_raised {a b : Yielded β} :
    (a.andThen b).raised = none ↔ a.raised = none ∧ b.raised = none := by
  obtain ⟨as, _ | e⟩ := a
  · simp
  · simp [andThen]

theorem collect_map {δ : Type} (f : γ → Yielded β) (g : δ → γ) (xs : List δ) :
    collect f (xs.map g) = collect (fun x => f (g x)) xs := by
  induction xs with
  | nil => rfl
  | cons x xs ih => rw [List.map_cons, collect, ih, collect]

/-- A loop raises when one of its rounds does. -/
theorem collect_raised {f : γ → Yielded β} {xs : List γ} :
    (collect f xs).raised = none ↔ ∀ x ∈ xs, (f x).raised = none := by
  induction xs with
  | nil => simp [collect]
  | cons x xs ih => rw [collect, andThen_raised, ih, List.forall_mem_cons]

/-- A loop whose body never raises. -/
theorem collect_eq {f : γ → Yielded β} {g : γ → List β} {xs : List γ}
    (h : ∀ x ∈ xs, f x = ⟨g x, none⟩) : collect f xs = ⟨xs.flatMap g, none⟩ := by
  induction xs with
  | nil => rfl
  | cons x xs ih =>
      rw [collect, h x List.mem_cons_self, ih fun y hy => h y (List.mem_cons_of_mem x hy)]
      rfl

end Yielded

/-! ### Truncation -/

/-- `int(q)`: truncation towards zero. -/
def pyInt (q : ℚ) : ℤ := if 0 ≤ q then ⌊q⌋ else ⌈q⌉

@[simp] theorem pyInt_intCast (n : ℤ) : pyInt n = n := by
  unfold pyInt
  split <;> simp

theorem pyInt_nonneg {q : ℚ} (h : 0 ≤ q) : 0 ≤ pyInt q := by
  unfold pyInt
  rw [if_pos h]
  exact Int.floor_nonneg.mpr h

theorem pyInt_mono {p q : ℚ} (h : p ≤ q) : pyInt p ≤ pyInt q := by
  unfold pyInt
  by_cases hp : 0 ≤ p
  · rw [if_pos hp, if_pos (hp.trans h)]
    exact Int.floor_le_floor h
  · by_cases hq : 0 ≤ q
    · rw [if_neg hp, if_pos hq]
      exact (Int.ceil_le.mpr (by exact_mod_cast (not_le.mp hp).le)).trans (Int.floor_nonneg.mpr hq)
    · rw [if_neg hp, if_neg hq]
      exact Int.ceil_le_ceil h

/-- Subtracting whole seconds before truncating never gives less. -/
theorem pyInt_sub_le {q : ℚ} {w : ℤ} (hw : 0 ≤ w) : pyInt q - w ≤ pyInt (q - w) := by
  unfold pyInt
  by_cases hq : 0 ≤ q
  · rw [if_pos hq]
    by_cases hqw : 0 ≤ q - w
    · rw [if_pos hqw, Int.floor_sub_intCast]
    · rw [if_neg hqw, Int.ceil_sub_intCast]
      have := Int.floor_le_ceil q
      omega
  · have hqw : ¬0 ≤ q - w := by
      have : (0 : ℚ) ≤ w := by exact_mod_cast hw
      linarith [not_le.mp hq]
    rw [if_neg hq, if_neg hqw, Int.ceil_sub_intCast]

/-! ### Numbers -/

/-- A Python number: `int` or `float`. -/
inductive Number
  | int (n : ℤ)
  | float (x : Float)
  deriving DecidableEq

namespace Number

/-- The number as an exact quantity; NaN is none. -/
def value? : Number → Option (WithBot (WithTop ℚ))
  | int n => some ((n : ℚ) : WithTop ℚ)
  | float x => x.value?

/-- `float(n)`, for an int within the range of doubles. -/
def toFloat : Number → Float
  | int n => Float.nearest n
  | float x => x

/-- Arithmetic: exact on two ints, on doubles otherwise. -/
def lift (onInt : ℤ → ℤ → ℤ) (onFloat : Float → Float → Float) : Number → Number → Number
  | int a, int b => int (onInt a b)
  | a, b => float (onFloat a.toFloat b.toFloat)

instance : Add Number := ⟨lift (· + ·) (· + ·)⟩
instance : Sub Number := ⟨lift (· - ·) (· - ·)⟩
instance : Zero Number := ⟨int 0⟩
instance : One Number := ⟨int 1⟩

@[simp] theorem int_add_int (a b : ℤ) : int a + int b = int (a + b) := rfl
@[simp] theorem int_sub_int (a b : ℤ) : int a - int b = int (a - b) := rfl
@[simp] theorem zero_def : (0 : Number) = int 0 := rfl
@[simp] theorem one_def : (1 : Number) = int 1 := rfl

/-- Adding to a float gives a float. -/
theorem float_add (x : Float) (b : Number) : float x + b = float (x + b.toFloat) := by
  cases b <;> rfl

/-- `a < b`, exact between ints and floats; false as soon as one is NaN. -/
def lt (a b : Number) : Bool :=
  match a.value?, b.value? with
  | some p, some q => decide (p < q)
  | _, _ => false

/-- `a == b` of Python. -/
def pyEq (a b : Number) : Prop := a.value? = b.value? ∧ a.value? ≠ none

/-- `max(a, b)`: the first argument unless the second is greater. -/
def pyMax (a b : Number) : Number := if a.lt b then b else a

/-- `x / d` for an int `d`, always a float: the quotient of two ints is rounded once,
a float is divided by `float(d)`. -/
def trueDiv (x : Number) (d : ℚ) : Except PyError Float :=
  if d = 0 then .error .zeroDivisionError
  else match x with
    | int n =>
        let quotient := Float.nearestQuotient (n * d.den) d.num
        if quotient.isInf then .error .overflowError else .ok quotient
    | float x => .ok (x / Float.nearestQuotient d.num d.den)

/-- A quotient of ints that are not negative is not negative. -/
theorem nonneg_trueDiv {n : ℤ} {d : ℚ} {x : Float} (hn : 0 ≤ n) (hd : 0 ≤ d)
    (h : (int n).trueDiv d = .ok x) : ∃ q, x.value? = some q ∧ 0 ≤ q := by
  unfold trueDiv at h
  split at h
  · cases h
  · rename_i hzero
    have hnum : 0 < d.num := Rat.num_pos.mpr (lt_of_le_of_ne hd (Ne.symm hzero))
    dsimp only at h
    split at h
    · cases h
    · cases h
      exact Float.nonneg_value?_nearestQuotient (by positivity) hnum

/-- Converting a small int to a double does not change its value. -/
theorem pyEq_nearest {n : ℤ} (h : n.natAbs < 2 ^ 53) : (float (Float.nearest n)).pyEq (int n) :=
  ⟨Float.value?_nearest h, by rw [value?, Float.value?_nearest h]; exact Option.some_ne_none _⟩

/-! ### Counts -/

/-- The number stands for a count, as an int or as a float. -/
def Counts (x : Number) (n : ℕ) : Prop := x = int n ∨ x = float (Float.nearest n)

namespace Counts

variable {x y : Number} {a b : ℕ}

theorem toFloat (h : x.Counts a) : x.toFloat = Float.nearest a := by
  rcases h with rfl | rfl <;> rfl

/-- Counts below `2 ^ 53` are added without an error. -/
theorem add (hx : x.Counts a) (hy : y.Counts b) (h : a + b < 2 ^ 53) : (x + y).Counts (a + b) := by
  have hfloat : x.toFloat + y.toFloat = Float.nearest (a + b : ℕ) := by
    rw [hx.toFloat, hy.toFloat, Float.nearest_add_nearest h]
  rcases hx with rfl | rfl
  · rcases hy with rfl | rfl
    · exact Or.inl (by rw [int_add_int]; push_cast; rfl)
    · exact Or.inr (congrArg float hfloat)
  · rw [float_add]
    exact Or.inr (congrArg float hfloat)

theorem value?_eq (hx : x.Counts a) (h : a < 2 ^ 53) : x.value? = some ((a : ℚ) : WithTop ℚ) := by
  rcases hx with rfl | rfl
  · exact congrArg some (by push_cast; rfl)
  · rw [value?, Float.value?_nearest (by omega)]
    push_cast
    rfl

/-- The same count twice is the same number for Python. -/
theorem pyEq (hx : x.Counts a) (hy : y.Counts a) (h : a < 2 ^ 53) : x.pyEq y := by
  refine ⟨(hx.value?_eq h).trans (hy.value?_eq h).symm, ?_⟩
  rw [hx.value?_eq h]
  exact Option.some_ne_none _

end Counts

end Number

end SqlalchemyCollectd
