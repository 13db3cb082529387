import Mathlib.Data.List.Basic

/-!
# SqlalchemyCollectd.Lib.Markup

**Marked-up text.** A code stands between an opening and a closing mark. It is not empty,
it ends at the first closing mark after its first letter, and it does not go over the end
of a line; an opening mark without such an end is a letter like others. This is how the
regular expression `(o.+?)c` finds its matches, one after the other from the left.

`segments` takes a text apart at its codes. It goes from left to right: a code that stands
at the beginning is found there (`segments_code`), and what has no opening mark is text
(`segments_append`).
-/

namespace Markup

variable {α : Type}

/-- The two marks, and the end of a line. -/
structure Marks (α : Type) where
  opening : α
  closing : α
  newline : α

/-- A text between codes: what comes before the first of them, and each code with the text
after it. A code has its opening mark. -/
@[ext] structure Segments (α : Type) where
  first : List α := []
  rest : List (List α × List α) := []
  deriving DecidableEq

namespace Segments

/-- The result of `re.split`. -/
def tokens (s : Segments α) : List (List α) := s.first :: s.rest.flatMap fun (code, text) => [code, text]

/-- The result of `re.sub`, nothing being put in place of a code. -/
def text (s : Segments α) : List α := s.first ++ s.rest.flatMap Prod.snd

/-- More text on the left. -/
def prepend (xs : List α) (s : Segments α) : Segments α := { s with first := xs ++ s.first }

/-- A code on the left. -/
def addCode (code : List α) (s : Segments α) : Segments α := ⟨[], (code, s.first) :: s.rest⟩

@[simp] theorem prepend_nil (s : Segments α) : s.prepend [] = s := rfl

@[simp] theorem prepend_prepend (xs ys : List α) (s : Segments α) :
    (s.prepend ys).prepend xs = s.prepend (xs ++ ys) := by
  simp [prepend]

@[simp] theorem text_prepend (xs : List α) (s : Segments α) :
    (s.prepend xs).text = xs ++ s.text := by
  simp [prepend, text]

@[simp] theorem text_addCode (code : List α) (s : Segments α) : (s.addCode code).text = s.text := by
  simp [addCode, text]

@[simp] theorem tokens_addCode (code : List α) (s : Segments α) :
    (s.addCode code).tokens = [] :: code :: s.tokens := by
  simp [addCode, tokens]

end Segments

variable [DecidableEq α] (m : Marks α)

/-- `.*?c`, from the place where it is tried: what is before the closing mark. -/
def upToClosing : List α → Option (List α)
  | [] => none
  | a :: as =>
      if a = m.closing then some []
      else if a = m.newline then none
      else (upToClosing as).map (a :: ·)

/-- `.+?c`. -/
def code? : List α → Option (List α)
  | [] => none
  | a :: as => if a = m.newline then none else (upToClosing m as).map (a :: ·)

/-- The segments of a text whose first `skip` letters are in a code that has been found. -/
def segmentsFrom : ℕ → List α → Segments α
  | _, [] => {}
  | skip + 1, _ :: as => segmentsFrom skip as
  | 0, a :: as =>
      match if a = m.opening then code? m as else none with
      | some code => (segmentsFrom (code.length + 1) as).addCode (a :: code)
      | none => (segmentsFrom 0 as).prepend [a]

def segments (as : List α) : Segments α := segmentsFrom m 0 as

/-! ### From left to right -/

theorem segmentsFrom_append (xs ys : List α) :
    segmentsFrom m xs.length (xs ++ ys) = segments m ys := by
  induction xs with
  | nil => rfl
  | cons x xs ih => exact ih

/-- The letters of a code, after the opening mark. -/
def IsCode (code : List α) : Prop :=
  ∃ a as, code = a :: as ∧ a ≠ m.newline ∧ ∀ b ∈ as, b ≠ m.closing ∧ b ≠ m.newline

variable {m}

theorem upToClosing_append {xs : List α} (h : ∀ b ∈ xs, b ≠ m.closing ∧ b ≠ m.newline)
    (ys : List α) : upToClosing m (xs ++ m.closing :: ys) = some xs := by
  induction xs with
  | nil => simp [upToClosing]
  | cons x xs ih =>
      obtain ⟨⟨hclosing, hnewline⟩, hrest⟩ := List.forall_mem_cons.mp h
      rw [List.cons_append, upToClosing, if_neg hclosing, if_neg hnewline, ih hrest, Option.map_some]

theorem code?_append {code : List α} (h : IsCode m code) (ys : List α) :
    code? m (code ++ m.closing :: ys) = some code := by
  obtain ⟨a, as, rfl, hnewline, has⟩ := h
  rw [List.cons_append, code?, if_neg hnewline, upToClosing_append has, Option.map_some]

/-- A code is found where it stands. -/
theorem segments_code {code : List α} (h : IsCode m code) (ys : List α) :
    segments m (m.opening :: code ++ m.closing :: ys) =
      (segments m ys).addCode (m.opening :: code) := by
  have hskip := segmentsFrom_append m (code ++ [m.closing]) ys
  rw [List.length_append, List.append_assoc, List.singleton_append] at hskip
  rw [segments, List.cons_append, segmentsFrom, if_pos rfl, code?_append h]
  exact congrArg (Segments.addCode (m.opening :: code)) hskip

/-- What stands before the first opening mark is text. -/
theorem segments_append {xs : List α} (h : m.opening ∉ xs) (ys : List α) :
    segments m (xs ++ ys) = (segments m ys).prepend xs := by
  induction xs with
  | nil => rfl
  | cons x xs ih =>
      obtain ⟨hx, hxs⟩ := not_or.mp (List.mem_cons.not.mp h)
      rw [segments, List.cons_append, segmentsFrom, if_neg (Ne.symm hx)]
      change (segments m (xs ++ ys)).prepend [x] = _
      rw [ih hxs, Segments.prepend_prepend, List.singleton_append]

end Markup
