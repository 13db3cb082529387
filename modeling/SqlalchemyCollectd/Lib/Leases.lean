import Mathlib.Algebra.Order.Group.Defs
import Mathlib.Data.List.Induction
import SqlalchemyCollectd.Lib.OrderedDict

/-!
# SqlalchemyCollectd.Lib.Leases

**Leases.** A table has for each key the time of its last renewal. Nothing expires by
itself: it is a visit of the table that removes what was renewed too long ago, and goes
over the rest.

So a key is in the table exactly when no visit since its last renewal has found that too
old (`get?_run_iff`). When clocks do not go backwards the visits in between do not
matter: a visit reaches the keys that were renewed within the time to live
(`mem_keys_visit_iff`).
-/

namespace Leases

variable {κ τ : Type} [DecidableEq κ] [AddCommGroup τ] [LinearOrder τ]

/-- What happens to a table. -/
inductive Event (κ τ : Type)
  | renew (key : κ) (now : τ)
  | visit (now : τ)

/-- When it happens. -/
def Event.time : Event κ τ → τ
  | .renew _ now => now
  | .visit now => now

omit [DecidableEq κ] in
/-- A visit at `now` removes what is older than the time to live. -/
def visit (ttl now : τ) (table : OrderedDict κ τ) : OrderedDict κ τ :=
  table.filter fun _ renewed => !decide (ttl < now - renewed)

def step (ttl : τ) (table : OrderedDict κ τ) : Event κ τ → OrderedDict κ τ
  | .renew key now => table.set key now
  | .visit now => visit ttl now table

/-- The table after a run. -/
def run (ttl : τ) (events : List (Event κ τ)) : OrderedDict κ τ := events.foldl (step ttl) .empty

theorem run_append (ttl : τ) (events : List (Event κ τ)) (event : Event κ τ) :
    run ttl (events ++ [event]) = step ttl (run ttl events) event := by
  rw [run, List.foldl_append]
  rfl

theorem get?_visit_eq_some_iff {ttl now renewed : τ} {table : OrderedDict κ τ} {key : κ} :
    (visit ttl now table).get? key = some renewed ↔
      table.get? key = some renewed ∧ now - renewed ≤ ttl := by
  rw [visit, OrderedDict.get?_filter, Option.filter_eq_some_iff]
  simp

/-- The key was renewed last at `renewed`, and no visit since has found that too old. -/
def Holds (ttl : τ) (events : List (Event κ τ)) (key : κ) (renewed : τ) : Prop :=
  ∃ before after, events = before ++ .renew key renewed :: after ∧
    (∀ now, .renew key now ∉ after) ∧ ∀ now, .visit now ∈ after → now - renewed ≤ ttl

omit [DecidableEq κ] in
/-- What an event makes of a lease that was held before it. -/
theorem holds_append_iff {ttl : τ} {events : List (Event κ τ)} {event : Event κ τ} {key : κ}
    {renewed : τ} : Holds ttl (events ++ [event]) key renewed ↔
      event = .renew key renewed ∨ Holds ttl events key renewed ∧
        (∀ now, event ≠ .renew key now) ∧ ∀ now, event = .visit now → now - renewed ≤ ttl := by
  constructor
  · intro ⟨before, after, hsplit, hlast, hvisits⟩
    -- the event is the renewal itself, or comes after it
    rcases List.eq_nil_or_concat after with rfl | ⟨after, last, rfl⟩
    · obtain ⟨-, hevent⟩ := List.append_inj' hsplit rfl
      exact Or.inl (List.singleton_inj.mp hevent)
    · rw [List.concat_eq_append, ← List.cons_append, ← List.append_assoc] at hsplit
      obtain ⟨rfl, hevent⟩ := List.append_inj' hsplit rfl
      obtain rfl := List.singleton_inj.mp hevent
      refine Or.inr ⟨⟨before, after, rfl, ?_, ?_⟩, ?_, ?_⟩
      · exact fun now hmem => hlast now (by simp [hmem])
      · exact fun now hmem => hvisits now (by simp [hmem])
      · exact fun now heq => hlast now (by simp [heq])
      · exact fun now heq => hvisits now (by simp [heq])
  · intro h
    rcases h with rfl | ⟨⟨before, after, rfl, hlast, hvisits⟩, hrenew, hvisit⟩
    · exact ⟨events, [], rfl, by simp, by simp⟩
    · refine ⟨before, after ++ [event], by simp, ?_, ?_⟩
      · intro now hmem
        rcases List.mem_append.mp hmem with hmem | hmem
        · exact hlast now hmem
        · exact hrenew now (List.mem_singleton.mp hmem).symm
      · intro now hmem
        rcases List.mem_append.mp hmem with hmem | hmem
        · exact hvisits now hmem
        · exact hvisit now (List.mem_singleton.mp hmem).symm

/-- **What is in the table** after a run. -/
theorem get?_run_iff {ttl : τ} {events : List (Event κ τ)} {key : κ} {renewed : τ} :
    (run ttl events).get? key = some renewed ↔ Holds ttl events key renewed := by
  induction events using List.reverseRecOn generalizing renewed with
  | nil => simp [run, Holds]
  | append_singleton events event ih =>
      rw [run_append, holds_append_iff, ← ih]
      cases event with
      | renew other now =>
          rw [step, OrderedDict.get?_set]
          by_cases hkey : key = other
          · simp [hkey]
          · simp [hkey, Ne.symm hkey]
      | visit now =>
          rw [step, get?_visit_eq_some_iff]
          simp

section Clock

variable [IsOrderedAddMonoid τ]

omit [DecidableEq κ] [AddCommGroup τ] [IsOrderedAddMonoid τ] in
/-- The last renewal of a key is the latest, when clocks do not go backwards. -/
theorem exists_last_renewal {events : List (Event κ τ)}
    (hclock : (events.map Event.time).Pairwise (· ≤ ·)) {key : κ} {renewed : τ}
    (h : .renew key renewed ∈ events) :
    ∃ before last after, events = before ++ .renew key last :: after ∧
      (∀ now, .renew key now ∉ after) ∧ renewed ≤ last := by
  induction events using List.reverseRecOn with
  | nil => cases h
  | append_singleton events event ih =>
      rw [List.map_append, List.pairwise_append] at hclock
      obtain ⟨hclock, -, hbefore⟩ := hclock
      by_cases hrenew : ∃ now, event = .renew key now
      · obtain ⟨now, rfl⟩ := hrenew
        refine ⟨events, now, [], rfl, by simp, ?_⟩
        rcases List.mem_append.mp h with h | h
        · exact hbefore renewed (List.mem_map.mpr ⟨_, h, rfl⟩) now (by simp [Event.time])
        · cases List.mem_singleton.mp h
          exact le_rfl
      · rcases List.mem_append.mp h with h | h
        · obtain ⟨before, last, after, rfl, hlast, hle⟩ := ih hclock h
          refine ⟨before, last, after ++ [event], by simp, ?_, hle⟩
          intro now hmem
          rcases List.mem_append.mp hmem with hmem | hmem
          · exact hlast now hmem
          · exact hrenew ⟨now, (List.mem_singleton.mp hmem).symm⟩
        · exact absurd ⟨renewed, (List.mem_singleton.mp h).symm⟩ hrenew

/-- **Whom a visit reaches**, when clocks do not go backwards. -/
theorem mem_keys_visit_iff {ttl now : τ} {events : List (Event κ τ)}
    (hclock : (events.map Event.time).Pairwise (· ≤ ·)) (hnow : ∀ event ∈ events, event.time ≤ now)
    {key : κ} : key ∈ (visit ttl now (run ttl events)).keys ↔
      ∃ renewed, .renew key renewed ∈ events ∧ now - renewed ≤ ttl := by
  rw [OrderedDict.mem_keys_iff, Option.isSome_iff_exists]
  simp only [get?_visit_eq_some_iff, get?_run_iff]
  constructor
  · rintro ⟨renewed, ⟨before, after, hsplit, -⟩, hage⟩
    exact ⟨renewed, by simp [hsplit], hage⟩
  · rintro ⟨renewed, hrenewed, hage⟩
    obtain ⟨before, last, after, rfl, hlast, hle⟩ := exists_last_renewal hclock hrenewed
    have hfresh : now - last ≤ ttl := (sub_le_sub_left hle now).trans hage
    refine ⟨last, ⟨before, after, rfl, hlast, fun time hvisit => ?_⟩, hfresh⟩
    have htime : time ≤ now := hnow (.visit time) (by simp [hvisit])
    exact (sub_le_sub_right htime last).trans hfresh

end Clock

end Leases
