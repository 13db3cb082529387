import Mathlib.Data.List.Induction

/-!
# SqlalchemyCollectd.Lib.Transition

**Runs of a partial step function.** A system has states `σ` and events `ι`;
`step s i` is the state after event `i`, or nothing when `s` does not allow it.
`Run step ok start is s` says that the events `is` lead from `start` to `s`, every
one of them satisfying the side condition `ok` in the state where it happens.

`Run.invariant` is the induction on runs, packaged: what holds at the start and is
kept by every step holds after every run. Concrete runs are found by evaluation
(`Run.of_exec`).

Where every event is allowed, a run is a fold. `kept` picks from a sequence of
events those that are not to be dropped, each judged in the state in which it
happens; when the dropped ones change nothing, the others lead to a state that is
no different (`foldl_kept`).
-/

namespace Transition

variable {σ ι : Type}

/-- Runs all of whose steps satisfy `ok`. -/
inductive Run (step : σ → ι → Option σ) (ok : σ → ι → Prop) (start : σ) : List ι → σ → Prop
  | nil : Run step ok start [] start
  | snoc {is : List ι} {s : σ} {i : ι} {s' : σ} (before : Run step ok start is s) (hok : ok s i)
      (hstep : step s i = some s') : Run step ok start (is ++ [i]) s'

namespace Run

variable {step : σ → ι → Option σ} {ok : σ → ι → Prop} {start : σ}

/-- **The invariant rule.** -/
theorem invariant {P : List ι → σ → Prop} (hstart : P [] start)
    (hstep : ∀ {is s i s'}, P is s → ok s i → step s i = some s' → P (is ++ [i]) s')
    {is : List ι} {s : σ} (h : Run step ok start is s) : P is s := by
  induction h with
  | nil => exact hstart
  | snoc _ hok hnext ih => exact hstep ih hok hnext

/-- A weaker side condition allows more runs. -/
theorem mono {ok' : σ → ι → Prop} (himp : ∀ s i, ok s i → ok' s i) {is : List ι} {s : σ}
    (h : Run step ok start is s) : Run step ok' start is s := by
  induction h with
  | nil => exact .nil
  | snoc _ hok hnext ih => exact ih.snoc (himp _ _ hok) hnext

/-- A run after a first step. -/
theorem cons {i : ι} {mid : σ} (hok : ok start i) (hstep : step start i = some mid) {is : List ι}
    {s : σ} (h : Run step ok mid is s) : Run step ok start (i :: is) s := by
  induction h with
  | nil => exact Run.nil.snoc hok hstep
  | snoc _ hok' hnext ih => exact ih.snoc hok' hnext

/-- One run after another. -/
theorem append {is js : List ι} {mid s : σ} (h : Run step ok start is mid)
    (h' : Run step ok mid js s) : Run step ok start (is ++ js) s := by
  induction h' with
  | nil => rwa [List.append_nil]
  | snoc _ hok hstep ih =>
      rw [← List.append_assoc]
      exact ih.snoc hok hstep

/-- The last step of a run. -/
theorem snoc_inv {is : List ι} {i : ι} {s' : σ} (h : Run step ok start (is ++ [i]) s') :
    ∃ s, Run step ok start is s ∧ ok s i ∧ step s i = some s' := by
  generalize his : is ++ [i] = is' at h
  cases h with
  | nil => exact absurd his (by simp)
  | snoc before hok hstep =>
      obtain ⟨rfl, hi⟩ := List.append_inj' his rfl
      obtain rfl := List.singleton_inj.mp hi
      exact ⟨_, before, hok, hstep⟩

/-- Events that are allowed and lead to the same states can stand for each other. -/
theorem map_iff {f : ι → ι} (hok : ∀ s i, ok s (f i) ↔ ok s i)
    (hstep : ∀ s i, step s (f i) = step s i) {is : List ι} {s : σ} :
    Run step ok start (is.map f) s ↔ Run step ok start is s := by
  induction is using List.reverseRecOn generalizing s with
  | nil => exact Iff.rfl
  | append_singleton is i ih =>
      rw [List.map_append, List.map_singleton]
      refine ⟨fun h => ?_, fun h => ?_⟩
      · obtain ⟨mid, hbefore, hmid, hlast⟩ := h.snoc_inv
        exact (ih.mp hbefore).snoc ((hok _ _).mp hmid) (hstep mid i ▸ hlast)
      · obtain ⟨mid, hbefore, hmid, hlast⟩ := h.snoc_inv
        exact (ih.mpr hbefore).snoc ((hok _ _).mpr hmid) ((hstep mid i).trans hlast)

/-- A run goes where the step function, made total, takes its events. -/
theorem foldl_getD {is : List ι} {s : σ} (h : Run step ok start is s) :
    is.foldl (fun s i => (step s i).getD s) start = s := by
  induction h with
  | nil => rfl
  | snoc _ _ hstep ih => rw [List.foldl_append, ih, List.foldl_cons, List.foldl_nil, hstep,
      Option.getD_some]

/-- The first step of a run. -/
theorem cons_inv {i : ι} {is : List ι} {s : σ} (h : Run step ok start (i :: is) s) :
    ∃ mid, ok start i ∧ step start i = some mid ∧ Run step ok mid is s := by
  induction is using List.reverseRecOn generalizing s with
  | nil =>
      have h : Run step ok start ([] ++ [i]) s := h
      obtain ⟨mid, hbefore, hok, hstep⟩ := h.snoc_inv
      obtain rfl := hbefore.foldl_getD
      exact ⟨s, hok, hstep, .nil⟩
  | append_singleton is j ih =>
      rw [← List.cons_append] at h
      obtain ⟨last, hbefore, hok, hstep⟩ := h.snoc_inv
      obtain ⟨mid, hfirst, hmid, hrest⟩ := ih hbefore
      exact ⟨mid, hfirst, hmid, hrest.snoc hok hstep⟩

end Run

/-- The step function restricted to steps that satisfy `ok`. -/
def guarded (step : σ → ι → Option σ) (ok : σ → ι → Prop) [∀ s i, Decidable (ok s i)] (s : σ)
    (i : ι) : Option σ :=
  if ok s i then step s i else none

/-- A run that evaluates is a run. -/
theorem Run.of_exec {step : σ → ι → Option σ} {ok : σ → ι → Prop} [∀ s i, Decidable (ok s i)]
    {start : σ} {is : List ι} {s : σ} (h : is.foldlM (guarded step ok) start = some s) :
    Run step ok start is s := by
  induction is using List.reverseRecOn generalizing s with
  | nil => exact Option.some.inj h ▸ .nil
  | append_singleton is i ih =>
      rw [List.foldlM_append] at h
      obtain ⟨mid, hmid, hlast⟩ := Option.bind_eq_some_iff.mp h
      have hguarded : guarded step ok mid i = some s := by simpa using hlast
      unfold guarded at hguarded
      split at hguarded
      · exact (ih hmid).snoc ‹_› hguarded
      · cases hguarded

/-! ### Dropping events -/

section Kept

variable {step : σ → ι → σ} {drop : σ → ι → Prop} [∀ s i, Decidable (drop s i)]

/-- The events that are not dropped, from state `s` on. -/
def kept (step : σ → ι → σ) (drop : σ → ι → Prop) [∀ s i, Decidable (drop s i)] :
    σ → List ι → List ι
  | _, [] => []
  | s, i :: is =>
      if drop s i then kept step drop (step s i) is else i :: kept step drop (step s i) is

theorem kept_append (s : σ) (is : List ι) (i : ι) :
    kept step drop s (is ++ [i]) =
      kept step drop s is ++ if drop (is.foldl step s) i then [] else [i] := by
  induction is generalizing s with
  | nil =>
      rw [List.nil_append, kept, kept, kept, List.nil_append]
      rfl
  | cons i' is ih =>
      rw [List.cons_append, kept, kept, ih, List.foldl_cons]
      split
      · rfl
      · rw [List.cons_append]

theorem kept_sublist (s : σ) (is : List ι) : (kept step drop s is).Sublist is := by
  induction is generalizing s with
  | nil => exact List.Sublist.slnil
  | cons i is ih =>
      rw [kept]
      split
      · exact (ih _).cons i
      · exact (ih _).cons_cons i

theorem mem_of_mem_kept {s : σ} {is : List ι} {i : ι} (h : i ∈ kept step drop s is) : i ∈ is :=
  (kept_sublist s is).mem h

/-- **Events that change nothing can be dropped.** Nothing here means: up to a relation
that the steps respect. -/
theorem foldl_kept {R : σ → σ → Prop} (hrefl : ∀ s, R s s) (htrans : ∀ {a b c}, R a b → R b c → R a c)
    (hstep : ∀ {a b} i, R a b → R (step a i) (step b i)) {s : σ} {is : List ι}
    (h : ∀ before i after, is = before ++ i :: after → drop (before.foldl step s) i →
      R (before.foldl step s) (step (before.foldl step s) i)) :
    R ((kept step drop s is).foldl step s) (is.foldl step s) := by
  induction is using List.reverseRecOn with
  | nil => exact hrefl s
  | append_singleton is i ih =>
      have ih := ih fun before j after hsplit =>
        h before j (after ++ [i]) (by rw [hsplit, List.append_assoc, List.cons_append])
      rw [kept_append, List.foldl_append, List.foldl_append, List.foldl_cons, List.foldl_nil]
      by_cases hdrop : drop (is.foldl step s) i
      · rw [if_pos hdrop, List.foldl_nil]
        exact htrans ih (h is i [] rfl hdrop)
      · rw [if_neg hdrop, List.foldl_cons, List.foldl_nil]
        exact hstep i ih

end Kept

end Transition
