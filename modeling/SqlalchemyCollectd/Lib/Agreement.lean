import Mathlib.Data.List.Basic

/-!
# SqlalchemyCollectd.Lib.Agreement

**Merging by agreement.** A field of several records is kept when they agree on it and
replaced by a default when they do not. `meet bot` does this for two values; it is the
greatest lower bound of the order in which `bot` lies below everything and any two
other values are unrelated. So `bot` absorbs (`bot_meet`), and a default that happens
to be one of the values cannot be told from a disagreement later on, nor needs to be:
folding `meet bot` over a list gives what all of it agree on, and `bot` if they do not
(`agreed_foldl`), in whatever order it is done.
-/

namespace Agreement

universe u

variable {β : Type u} [DecidableEq β] {bot : β}

/-- What two values agree on, `bot` if they do not. -/
def meet (bot a b : β) : β := if a = b then a else bot

@[simp] theorem meet_self (a : β) : meet bot a a = a := if_pos rfl

@[simp] theorem bot_meet (a : β) : meet bot bot a = bot := ite_self _

theorem meet_of_ne {a b : β} (h : a ≠ b) : meet bot a b = bot := if_neg h

theorem meet_comm (a b : β) : meet bot a b = meet bot b a := by
  by_cases h : a = b
  · rw [h]
  · rw [meet_of_ne h, meet_of_ne (Ne.symm h)]

@[simp] theorem meet_bot (a : β) : meet bot a bot = bot := by
  rw [meet_comm, bot_meet]

/-- A disagreement cannot be mended. -/
theorem meet_assoc (a b c : β) : meet bot (meet bot a b) c = meet bot a (meet bot b c) := by
  by_cases hab : a = b
  · subst hab
    rw [meet_self]
    by_cases hac : a = c
    · rw [hac, meet_self, meet_self]
    · rw [meet_of_ne hac, meet_bot]
  · rw [meet_of_ne hab, bot_meet]
    by_cases hbc : b = c
    · rw [← hbc, meet_self, meet_of_ne hab]
    · rw [meet_of_ne hbc, meet_bot]

/-- `x` is what all of `xs` agree on, `bot` if they do not. -/
structure Agreed (bot : β) (xs : List β) (x : β) : Prop where
  common : (∀ y ∈ xs, ∀ z ∈ xs, y = z) → ∀ y ∈ xs, x = y
  differ : ¬(∀ y ∈ xs, ∀ z ∈ xs, y = z) → x = bot

theorem foldl_bot (xs : List β) : xs.foldl (meet bot) bot = bot := by
  induction xs with
  | nil => rfl
  | cons x xs ih => rw [List.foldl_cons, bot_meet, ih]

/-- **Folding keeps exactly what all agree on.** -/
theorem agreed_foldl (bot a : β) (xs : List β) : Agreed bot (a :: xs) (xs.foldl (meet bot) a) := by
  induction xs with
  | nil => exact ⟨fun _ y hy => (List.mem_singleton.mp hy).symm, fun h => absurd (by simp) h⟩
  | cons x xs ih =>
      rw [List.foldl_cons]
      by_cases hax : a = x
      · subst hax
        rw [meet_self]
        exact ⟨fun h y hy => ih.common (by simpa using h) y (by simpa using hy),
          fun h => ih.differ (by simpa using h)⟩
      · rw [meet_of_ne hax, foldl_bot]
        exact ⟨fun h => absurd (h a (by simp) x (by simp)) hax, fun _ => rfl⟩

omit [DecidableEq β] in
/-- What a list agrees on depends on its elements alone. -/
theorem Agreed.unique {xs ys : List β} {x y : β} (hx : Agreed bot xs x) (hy : Agreed bot ys y)
    (hne : xs ≠ []) (h : ∀ z, z ∈ xs ↔ z ∈ ys) : x = y := by
  by_cases hagree : ∀ z ∈ xs, ∀ w ∈ xs, z = w
  · obtain ⟨z, hz⟩ := List.exists_mem_of_ne_nil xs hne
    rw [hx.common hagree z hz]
    refine (hy.common (fun z hz w hw => ?_) z ((h z).mp hz)).symm
    exact hagree z ((h z).mpr hz) w ((h w).mpr hw)
  · rw [hx.differ hagree, hy.differ]
    simpa only [h] using hagree

end Agreement
