import SqlalchemyCollectd.Lib.Transition

/-!
# SqlalchemyCollectd.Lib.Mailbox

**A queue and its worker.** Items arrive at any time and wait in a queue. A worker
takes the oldest one, handles it and takes the next; handling an item is a function of
the worker's state, and need not return. Other parties act on the same state meanwhile.

Whatever the interleaving, the outcome is that of a sequential run: there is a log of
the items that were taken, in the order of their arrival, and of the other actions, in
theirs, that leads to the state, and what is not in the log still waits (`exists_log`).
A worker that is running can always work off what waits, unless it meets an item that
it cannot finish (`exists_drain`).
-/

namespace Mailbox

open Transition

variable {σ ι ω : Type}

/-- Whether the worker goes on: it may be caught in an item, or have been told to stop. -/
inductive Status
  | running
  | stuck
  | stopped
  deriving DecidableEq

structure State (σ ι : Type) where
  queue : List ι := []
  state : σ
  status : Status := .running

inductive Event (ι ω : Type)
  | arrive (item : ι)
  | take
  | act (action : ω)
  | interrupt

/-- The items that arrive in a run. -/
def arrivals (events : List (Event ι ω)) : List ι :=
  events.filterMap fun
    | .arrive item => some item
    | .take | .act _ | .interrupt => none

/-- The actions of the other parties in a run. -/
def actions (events : List (Event ι ω)) : List ω :=
  events.filterMap fun
    | .act action => some action
    | .arrive _ | .take | .interrupt => none

variable (handle : σ → ι → Option σ) (act : σ → ω → σ)

/-- What happens next, where it can: the worker takes an item when it is running and
there is one. -/
def step (s : State σ ι) : Event ι ω → Option (State σ ι)
  | .arrive item => some { s with queue := s.queue ++ [item] }
  | .take =>
      match s.status, s.queue with
      | .running, item :: queue =>
          match handle s.state item with
          | some state => some { s with queue, state }
          | none => some { s with queue, status := .stuck }
      | _, _ => none
  | .act action => some { s with state := act s.state action }
  | .interrupt =>
      match s.status with
      | .running => some { s with status := .stopped }
      | _ => none

/-- What an entry of the log does. -/
def effect (s : σ) : ι ⊕ ω → σ
  | .inl item => (handle s item).getD s
  | .inr action => act s action

/-- The items in a log. -/
def items (log : List (ι ⊕ ω)) : List ι := log.filterMap Sum.getLeft?

/-- The other actions in a log. -/
def others (log : List (ι ⊕ ω)) : List ω := log.filterMap Sum.getRight?

/-- The worker has met an item in the log that it cannot finish. -/
def Caught (start : σ) (log : List (ι ⊕ ω)) : Prop :=
  ∃ before item after, log = before ++ .inl item :: after ∧
    handle (before.foldl (effect handle act) start) item = none

/-- The log of a run, seen from the state that it leads to. -/
structure Log (start : σ) (events : List (Event ι ω)) (s : State σ ι) (log : List (ι ⊕ ω)) :
    Prop where
  arrivals : arrivals events = items log ++ s.queue
  actions : actions events = others log
  state : s.state = log.foldl (effect handle act) start
  stuck : s.status = .stuck ↔ Caught handle act start log

variable {handle act} {start : σ} {events : List (Event ι ω)} {s s' : State σ ι}
  {log : List (ι ⊕ ω)}

@[simp] theorem items_cons_inl (item : ι) (log : List (ι ⊕ ω)) :
    items (.inl item :: log) = item :: items log := rfl

@[simp] theorem items_cons_inr (action : ω) (log : List (ι ⊕ ω)) :
    items (.inr action :: log) = items log := rfl

@[simp] theorem others_cons_inl (item : ι) (log : List (ι ⊕ ω)) :
    others (.inl item :: log) = others log := rfl

@[simp] theorem others_cons_inr (action : ω) (log : List (ι ⊕ ω)) :
    others (.inr action :: log) = action :: others log := rfl

@[simp] theorem items_append_inl (log : List (ι ⊕ ω)) (item : ι) :
    items (log ++ [.inl item]) = items log ++ [item] := by
  unfold items
  rw [List.filterMap_append]
  rfl

@[simp] theorem items_append_inr (log : List (ι ⊕ ω)) (action : ω) :
    items (log ++ [.inr action]) = items log := by
  unfold items
  rw [List.filterMap_append]
  exact List.append_nil _

@[simp] theorem others_append_inl (log : List (ι ⊕ ω)) (item : ι) :
    others (log ++ [.inl item]) = others log := by
  unfold others
  rw [List.filterMap_append]
  exact List.append_nil _

@[simp] theorem others_append_inr (log : List (ι ⊕ ω)) (action : ω) :
    others (log ++ [.inr action]) = others log ++ [action] := by
  unfold others
  rw [List.filterMap_append]
  rfl

/-! ### One step -/

/-- Where the worker takes an item. -/
theorem step_take (h : step handle act s .take = some s') :
    ∃ item, s.status = .running ∧ s.queue = item :: s'.queue ∧
      s'.state = (handle s.state item).getD s.state ∧
      (s'.status = .stuck ↔ handle s.state item = none) := by
  obtain ⟨queue, state, status⟩ := s
  cases status with
  | stuck | stopped => cases h
  | running =>
      cases queue with
      | nil => cases h
      | cons item queue =>
          simp only [step] at h
          cases hhandle : handle state item with
          | some next =>
              rw [hhandle] at h
              obtain rfl := Option.some.inj h
              exact ⟨item, rfl, rfl, by simp [hhandle], by simp [hhandle]⟩
          | none =>
              rw [hhandle] at h
              obtain rfl := Option.some.inj h
              exact ⟨item, rfl, rfl, by simp [hhandle], by simp [hhandle]⟩

theorem caught_append_inr (action : ω) :
    Caught handle act start (log ++ [.inr action]) ↔ Caught handle act start log := by
  constructor
  · intro ⟨before, item, after, hsplit, hcaught⟩
    rcases List.eq_nil_or_concat after with rfl | ⟨after, last, rfl⟩
    · obtain ⟨-, hlast⟩ := List.append_inj' hsplit rfl
      cases hlast
    · rw [List.concat_eq_append, ← List.cons_append, ← List.append_assoc] at hsplit
      exact ⟨before, item, after, (List.append_inj' hsplit rfl).1, hcaught⟩
  · intro ⟨before, item, after, hsplit, hcaught⟩
    exact ⟨before, item, after ++ [.inr action], by simp [hsplit], hcaught⟩

theorem caught_append_inl {item : ι} (h : ¬Caught handle act start log) :
    Caught handle act start (log ++ [.inl item]) ↔
      handle (log.foldl (effect handle act) start) item = none := by
  constructor
  · intro ⟨before, item', after, hsplit, hcaught⟩
    rcases List.eq_nil_or_concat after with rfl | ⟨after, last, rfl⟩
    · obtain ⟨rfl, hlast⟩ := List.append_inj' hsplit rfl
      obtain rfl := Sum.inl.inj (List.singleton_inj.mp hlast)
      exact hcaught
    · rw [List.concat_eq_append, ← List.cons_append, ← List.append_assoc] at hsplit
      exact absurd ⟨before, item', after, (List.append_inj' hsplit rfl).1, hcaught⟩ h
  · intro hcaught
    exact ⟨log, item, [], rfl, hcaught⟩

/-- **One step extends the log**, or leaves it alone. -/
theorem Log.step (h : Log handle act start events s log) {event : Event ι ω}
    (hstep : step handle act s event = some s') :
    ∃ log', Log handle act start (events ++ [event]) s' log' := by
  have harrivals : Mailbox.arrivals (events ++ [event]) =
      Mailbox.arrivals events ++ Mailbox.arrivals [event] := List.filterMap_append
  have hactions : Mailbox.actions (events ++ [event]) =
      Mailbox.actions events ++ Mailbox.actions [event] := List.filterMap_append
  rw [h.arrivals] at harrivals
  rw [h.actions] at hactions
  cases event with
  | arrive item =>
      obtain rfl := Option.some.inj hstep
      exact ⟨log, harrivals.trans (List.append_assoc ..), hactions.trans (List.append_nil _),
        h.state, h.stuck⟩
  | take =>
      -- the item is in the log from now on, whether the loop gets past it or not
      obtain ⟨item, hrunning, hqueue, hstate, hstuck⟩ := step_take hstep
      have hfree : ¬Caught handle act start log := by
        rw [← h.stuck, hrunning]
        simp
      refine ⟨log ++ [.inl item], ?_, ?_, ?_, ?_⟩
      · rw [harrivals, hqueue, items_append_inl]
        simp [Mailbox.arrivals]
      · rw [hactions, others_append_inl]
        exact List.append_nil _
      · rw [hstate, List.foldl_append, ← h.state]
        rfl
      · rw [hstuck, caught_append_inl hfree, ← h.state]
  | act action =>
      obtain rfl := Option.some.inj hstep
      refine ⟨log ++ [.inr action], ?_, ?_, ?_, ?_⟩
      · rw [harrivals, items_append_inr]
        exact List.append_nil _
      · rw [hactions, others_append_inr]
        rfl
      · rw [List.foldl_append, ← h.state]
        rfl
      · rw [caught_append_inr, ← h.stuck]
  | interrupt =>
      simp only [Mailbox.step] at hstep
      split at hstep
      · rename_i hrunning
        obtain rfl := Option.some.inj hstep
        refine ⟨log, harrivals.trans (List.append_nil _), hactions.trans (List.append_nil _),
          h.state, ?_⟩
        rw [← h.stuck, hrunning]
        simp
      · cases hstep

/-! ### Runs -/

variable {ok : State σ ι → Event ι ω → Prop}

/-- **Every interleaving is a sequential run** of what was taken and what the others did. -/
theorem exists_log (h : Run (step handle act) ok { state := start } events s) :
    ∃ log, Log handle act start events s log := by
  refine h.invariant (P := fun events s => ∃ log, Log handle act start events s log) ?_ ?_
  · refine ⟨[], rfl, rfl, rfl, ?_⟩
    simp [Caught]
  · intro events s event s' ⟨log, hlog⟩ _ hstep
    exact hlog.step hstep

/-- **A running worker works off its queue**, if it can finish what is in it. -/
theorem exists_drain (hrunning : s.status = .running)
    (hfinish : ∀ item ∈ s.queue, ∀ state, handle state item ≠ none) :
    ∃ state, Run (step handle act) (fun _ _ => True) s (List.replicate s.queue.length .take)
        { s with queue := [], state } ∧
      state = (s.queue.map Sum.inl).foldl (effect handle act) s.state := by
  obtain ⟨queue, state, status⟩ := s
  obtain rfl : status = .running := hrunning
  induction queue generalizing state with
  | nil => exact ⟨state, .nil, rfl⟩
  | cons item queue ih =>
      obtain ⟨next, hnext⟩ :=
        Option.ne_none_iff_exists'.mp (hfinish item List.mem_cons_self state)
      obtain ⟨last, hrun, hlast⟩ := ih next fun i hi => hfinish i (List.mem_cons_of_mem _ hi)
      refine ⟨last, ?_, ?_⟩
      · refine Run.cons trivial ?_ hrun
        simp only [step, hnext]
      · rw [hlast, List.map_cons, List.foldl_cons, effect, hnext, Option.getD_some]

end Mailbox
