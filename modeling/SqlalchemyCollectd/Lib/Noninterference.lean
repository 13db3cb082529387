import Mathlib.Data.List.Basic

/-!
# SqlalchemyCollectd.Lib.Noninterference

**Two-run arguments for deterministic machines.** A machine is a step function on
states; an observer sees something, or nothing, of every step. To show that a
class of inputs does not interfere with what an observer sees, one gives a
relation between the state of the run with these inputs and the state of the run
without them (`observations_filter`). The relation also knows the inputs that are
still to come, so that assumptions on the rest of the run can be part of it.
-/

namespace Noninterference

variable {σ ι ο : Type}

/-- What an observer sees of a run. -/
def observations (step : σ → ι → σ) (observe : σ → ι → Option ο) : σ → List ι → List ο
  | _, [] => []
  | s, i :: is => (observe s i).toList ++ observations step observe (step s i) is

theorem observations_append {step : σ → ι → σ} {observe : σ → ι → Option ο} {s : σ}
    {is js : List ι} :
    observations step observe s (is ++ js) =
      observations step observe s is ++ observations step observe (is.foldl step s) js := by
  induction is generalizing s with
  | nil => rfl
  | cons i is ih =>
      rw [List.cons_append, observations, ih, observations, List.append_assoc, List.foldl_cons]

/-- Inputs that do and show the same can stand for each other. -/
theorem observations_map {step : σ → ι → σ} {observe : σ → ι → Option ο} {f : ι → ι}
    (hstep : ∀ s i, step s (f i) = step s i) (hobserve : ∀ s i, observe s (f i) = observe s i)
    {s : σ} {is : List ι} :
    observations step observe s (is.map f) = observations step observe s is := by
  induction is generalizing s with
  | nil => rfl
  | cons i is ih => rw [List.map_cons, observations, hobserve, hstep, ih, observations]

/-- **Unwinding.** Inputs that keep two runs related when only the first of them
takes them, and that show nothing, can be deleted from a run unnoticed. -/
theorem observations_filter {step : σ → ι → σ} {observe : σ → ι → Option ο} {keep : ι → Bool}
    {R : List ι → σ → σ → Prop}
    (hkeep : ∀ {i is s s'}, keep i → R (i :: is) s s' →
      observe s i = observe s' i ∧ R is (step s i) (step s' i))
    (hdrop : ∀ {i is s s'}, ¬keep i → R (i :: is) s s' →
      observe s i = none ∧ R is (step s i) s') :
    ∀ {is : List ι} {s s' : σ}, R is s s' →
      observations step observe s is = observations step observe s' (is.filter keep) := by
  intro is
  induction is with
  | nil => intro s s' _; rfl
  | cons i is ih =>
      intro s s' h
      by_cases hi : keep i
      · obtain ⟨hsee, hnext⟩ := hkeep hi h
        rw [List.filter_cons_of_pos hi, observations, observations, hsee, ih hnext]
      · obtain ⟨hsee, hnext⟩ := hdrop hi h
        rw [List.filter_cons_of_neg hi, observations, hsee, ih hnext]
        rfl

/-- Runs from states that stay related and look alike look alike. -/
theorem observations_congr {step : σ → ι → σ} {observe : σ → ι → Option ο} {R : σ → σ → Prop}
    (h : ∀ {s s'} i, R s s' → observe s i = observe s' i ∧ R (step s i) (step s' i))
    {is : List ι} {s s' : σ} (hs : R s s') :
    observations step observe s is = observations step observe s' is := by
  induction is generalizing s s' with
  | nil => rfl
  | cons i is ih =>
      obtain ⟨hsee, hnext⟩ := h i hs
      rw [observations, observations, hsee, ih hnext]

end Noninterference
