import Mathlib.Data.Rat.Defs
import Mathlib.Algebra.Order.Ring.Rat
import SqlalchemyCollectd.Lib.OrderedDict
import SqlalchemyCollectd.Lib.Transition

/-!
# SqlalchemyCollectd.Client.Worker

The worker thread of the client plugin, interleaved with the application threads
that register targets.

A worker is a step function. Its own events are the start of a pass over
`_collection_targets`, one advance of the iterator of that pass, the outcome of a
call of `sender.send` and the end of a sleep; the events of the application are
`add_target` and the check of the thread when a connection is made. Between any
two of them any other may happen. The iterator of an ordered dictionary raises
`RuntimeError` when it is advanced after a key was inserted, and that error is
outside of the `try` that protects `send`: the thread exits, and nothing in the
same process starts another.

So a pass survives exactly as long as no new pair is registered while it runs.
-/

namespace SqlalchemyCollectd.Worker

open Transition

/-- `_process(2)`. -/
def interval : ℚ := 2

/-- Where the worker thread stands. `now` is the time of the pass, `index` and `size`
are the iterator's position and the size of the dictionary when it was created. -/
inductive Thread (κ : Type)
  /-- At the top of `while True`. -/
  | top
  /-- At the head of the `for` loop. -/
  | iterating (now : ℚ) (index size : ℕ)
  /-- In `sender.send` for a pair. -/
  | sending (now : ℚ) (index size : ℕ) (pair : κ)
  | sleeping
  /-- After `except BaseException`. -/
  | exited
  deriving DecidableEq

/-- How a call of `sender.send` ends. -/
inductive Outcome
  | ok
  /-- An `Exception`. -/
  | exception
  /-- A `BaseException` that is not an `Exception`. -/
  | baseException
  deriving DecidableEq

/-- The module state: `_collection_targets`, with `last_called[0]` of each pair, and
`_WORKER_THREAD`. -/
structure State (κ : Type) where
  targets : OrderedDict κ ℚ := .empty
  thread : Option (Thread κ) := none

inductive Event (κ : Type)
  /-- `add_target(collection_target, sender)`. -/
  | addTarget (pair : κ)
  /-- `_check_threads_started()` of a connect event. -/
  | connect
  /-- `now = time.time()` and the creation of the iterator. -/
  | startPass (now : ℚ)
  /-- One advance of the iterator, up to the next call of `send`. -/
  | advance
  | send (outcome : Outcome)
  | wake
  deriving DecidableEq

variable {κ : Type}

/-- `_check_threads_started`, in a process that was not forked. -/
def checkThreadsStarted (s : State κ) : State κ :=
  match s.thread with
  | none => { s with thread := some .top }
  | some _ => s

variable [DecidableEq κ]

/-- `add_target`. -/
def addTarget (pair : κ) (s : State κ) : State κ :=
  checkThreadsStarted
    (if pair ∈ s.targets.keys then s else { s with targets := s.targets.set pair 0 })

/-- The `for` loop of `_process` from one `next()` of its iterator to the call of
`send` or to the end of the body. -/
def advance (now : ℚ) (index size : ℕ) (s : State κ) : State κ :=
  if s.targets.items.length ≠ size then { s with thread := some .exited }
  else
    match s.targets.items[index]? with
    | none => { s with thread := some .sleeping }
    | some (pair, lastCalled) =>
        if now - lastCalled > interval then
          { targets := s.targets.set pair now, thread := some (.sending now (index + 1) size pair) }
        else { s with thread := some (.iterating now (index + 1) size) }

/-- What happens next, where it can. -/
def step (s : State κ) : Event κ → Option (State κ)
  | .addTarget pair => some (addTarget pair s)
  | .connect => some (checkThreadsStarted s)
  | .startPass now =>
      match s.thread with
      | some .top => some { s with thread := some (.iterating now 0 s.targets.items.length) }
      | _ => none
  | .advance =>
      match s.thread with
      | some (.iterating now index size) => some (advance now index size s)
      | _ => none
  | .send outcome =>
      match s.thread with
      | some (.sending now index size _) =>
          match outcome with
          | .ok | .exception => some { s with thread := some (.iterating now index size) }
          | .baseException => some { s with thread := some .exited }
      | _ => none
  | .wake =>
      match s.thread with
      | some .sleeping => some { s with thread := some .top }
      | _ => none

/-! ### Where an event can happen -/

section Inversion

variable {s s' : State κ}

theorem step_startPass {now : ℚ} (h : step s (.startPass now) = some s') :
    s.thread = some .top ∧
      s' = { s with thread := some (.iterating now 0 s.targets.items.length) } := by
  simp only [step] at h
  split at h
  · rename_i hthread
    exact ⟨hthread, (Option.some.inj h).symm⟩
  · cases h

theorem step_advance (h : step s .advance = some s') :
    ∃ now index size, s.thread = some (.iterating now index size) ∧
      s' = advance now index size s := by
  simp only [step] at h
  split at h
  · rename_i now index size hthread
    exact ⟨now, index, size, hthread, (Option.some.inj h).symm⟩
  · cases h

theorem step_send {outcome : Outcome} (h : step s (.send outcome) = some s') :
    ∃ now index size pair, s.thread = some (.sending now index size pair) ∧
      (outcome = .baseException ∧ s' = { s with thread := some .exited } ∨
        outcome ≠ .baseException ∧ s' = { s with thread := some (.iterating now index size) }) := by
  simp only [step] at h
  split at h
  · rename_i now index size pair hthread
    refine ⟨now, index, size, pair, hthread, ?_⟩
    cases outcome with
    | ok | exception => exact Or.inr ⟨by simp, (Option.some.inj h).symm⟩
    | baseException => exact Or.inl ⟨rfl, (Option.some.inj h).symm⟩
  · cases h

theorem step_wake (h : step s .wake = some s') :
    s.thread = some .sleeping ∧ s' = { s with thread := some .top } := by
  simp only [step] at h
  split at h
  · rename_i hthread
    exact ⟨hthread, (Option.some.inj h).symm⟩
  · cases h

end Inversion

/-! ### Survival -/

/-- The size of the dictionary that the pass in progress expects. -/
def Thread.expects : Thread κ → Option ℕ
  | .iterating _ _ size => some size
  | .sending _ _ size _ => some size
  | .top => none
  | .sleeping => none
  | .exited => none

/-- The size that the pass in progress expects, if there is one. -/
def State.expects (s : State κ) : Option ℕ := s.thread.bind Thread.expects

/-- A pass is in progress. -/
def InPass (s : State κ) : Prop := s.expects.isSome

/-- No new pair is registered while a pass is in progress. -/
def Quiet (s : State κ) : Event κ → Prop
  | .addTarget pair => InPass s → pair ∈ s.targets.keys
  | _ => True

instance (s : State κ) (event : Event κ) : Decidable (Quiet s event) :=
  match event with
  | .addTarget pair => inferInstanceAs (Decidable (s.expects.isSome → pair ∈ s.targets.keys))
  | .connect | .startPass _ | .advance | .send _ | .wake => inferInstanceAs (Decidable True)

/-- The iterator of a pass in progress still fits the dictionary. -/
def Fits (s : State κ) : Prop := ∀ size, s.expects = some size → s.targets.items.length = size

/-- The thread has exited. -/
def Exited (s : State κ) : Prop := s.thread = some .exited

section Threads

omit [DecidableEq κ]

@[simp] theorem expects_checkThreadsStarted (s : State κ) :
    (checkThreadsStarted s).expects = s.expects := by
  unfold checkThreadsStarted State.expects
  cases hthread : s.thread with
  | none => rfl
  | some thread => simp [hthread]

@[simp] theorem targets_checkThreadsStarted (s : State κ) :
    (checkThreadsStarted s).targets = s.targets := by
  unfold checkThreadsStarted
  split <;> rfl

theorem exited_checkThreadsStarted {s : State κ} : Exited (checkThreadsStarted s) ↔ Exited s := by
  unfold checkThreadsStarted Exited
  cases hthread : s.thread with
  | none => simp
  | some thread => simp [hthread]

theorem Fits.checkThreadsStarted {s : State κ} (h : Fits s) : Fits (checkThreadsStarted s) := by
  intro size hsize
  rw [expects_checkThreadsStarted] at hsize
  rw [targets_checkThreadsStarted]
  exact h size hsize

end Threads

/-- `add_target` keeps the iterator fitting, unless it inserts during a pass. -/
theorem Fits.addTarget {s : State κ} {pair : κ} (h : Fits s)
    (hquiet : InPass s → pair ∈ s.targets.keys) : Fits (addTarget pair s) := by
  unfold Worker.addTarget
  by_cases hknown : pair ∈ s.targets.keys
  · rw [if_pos hknown]
    exact h.checkThreadsStarted
  · rw [if_neg hknown]
    refine Fits.checkThreadsStarted fun size hsize => absurd (hquiet ?_) hknown
    exact Option.isSome_of_eq_some hsize

theorem exited_addTarget {s : State κ} {pair : κ} : Exited (addTarget pair s) ↔ Exited s := by
  unfold addTarget
  rw [exited_checkThreadsStarted]
  split <;> rfl

/-- While its iterator fits, a pass goes on, and stays fitting. -/
theorem Fits.advance {s : State κ} {now : ℚ} {index size : ℕ}
    (hthread : s.thread = some (.iterating now index size)) (h : Fits s) :
    Fits (advance now index size s) ∧ ¬Exited (advance now index size s) := by
  have hsize : s.targets.items.length = size := h size (by rw [State.expects, hthread]; rfl)
  unfold Worker.advance
  rw [if_neg (not_not_intro hsize)]
  cases hitem : s.targets.items[index]? with
  | none => exact ⟨fun _ h => (by cases h), fun h => (by cases h)⟩
  | some entry =>
      have hpair : entry.1 ∈ s.targets.keys :=
        OrderedDict.mem_keys_of_mem_items (List.mem_of_getElem? hitem)
      dsimp only
      split
      · refine ⟨fun _ h => ?_, fun h => (by cases h)⟩
        rw [OrderedDict.length_items_set_of_mem hpair, hsize]
        exact Option.some.inj h
      · exact ⟨fun _ h => hsize.trans (Option.some.inj h), fun h => (by cases h)⟩

/-- **One quiet step** keeps the iterator fitting, and makes the thread exit only when
`send` raises a `BaseException`. -/
theorem step_quiet {s s' : State κ} {event : Event κ} (h : Fits s) (hquiet : Quiet s event)
    (hstep : step s event = some s') :
    Fits s' ∧ (Exited s' → Exited s ∨ event = .send .baseException) := by
  cases event with
  | addTarget pair =>
      obtain rfl := Option.some.inj hstep
      exact ⟨h.addTarget hquiet, fun hexited => Or.inl (exited_addTarget.mp hexited)⟩
  | connect =>
      obtain rfl := Option.some.inj hstep
      exact ⟨h.checkThreadsStarted, fun hexited => Or.inl (exited_checkThreadsStarted.mp hexited)⟩
  | startPass now =>
      obtain ⟨-, rfl⟩ := step_startPass hstep
      exact ⟨fun _ h => Option.some.inj h, fun h => (by cases h)⟩
  | advance =>
      obtain ⟨now, index, size, hthread, rfl⟩ := step_advance hstep
      obtain ⟨hfits, hnot⟩ := h.advance hthread
      exact ⟨hfits, fun hexited => absurd hexited hnot⟩
  | send outcome =>
      obtain ⟨now, index, size, pair, hthread, ⟨rfl, rfl⟩ | ⟨-, rfl⟩⟩ := step_send hstep
      · exact ⟨fun _ h => (by cases h), fun _ => Or.inr rfl⟩
      · have hsize : s.targets.items.length = size := h size (by rw [State.expects, hthread]; rfl)
        exact ⟨fun _ h => hsize.trans (Option.some.inj h), fun h => (by cases h)⟩
  | wake =>
      obtain ⟨-, rfl⟩ := step_wake hstep
      exact ⟨fun _ h => (by cases h), fun h => (by cases h)⟩

/-- **The worker survives quiet runs.** As long as no new pair is registered while a
pass is in progress, the thread exits only because a `send` raised a
`BaseException` that is not an `Exception`. -/
theorem survives {events : List (Event κ)} {s : State κ} (h : Run step Quiet {} events s)
    (hexited : Exited s) : .send .baseException ∈ events := by
  have hinvariant : Fits s ∧ (Exited s → .send .baseException ∈ events) := by
    refine h.invariant (P := fun events s => Fits s ∧ (Exited s → .send .baseException ∈ events))
      ⟨fun _ h => (by cases h), fun h => (by cases h)⟩ ?_
    intro events s event s' ih hquiet hstep
    obtain ⟨hfits, hcause⟩ := step_quiet ih.1 hquiet hstep
    refine ⟨hfits, fun hexited => ?_⟩
    rcases hcause hexited with hbefore | rfl
    · exact List.mem_append_left _ (ih.2 hbefore)
    · exact List.mem_append_right _ List.mem_cons_self
  exact hinvariant.2 hexited

theorem survives_baseException :
    .send .baseException ∈
      [Event.addTarget 1, .startPass 10, .advance, .addTarget 1, .send .baseException] := by
  have hrun : ([Event.addTarget 1, .startPass 10, .advance, .addTarget 1,
      .send .baseException].foldlM (guarded step Quiet) ({} : State ℕ)).map State.thread =
        some (some .exited) := by
    decide +kernel
  obtain ⟨s, hs, hexited⟩ := Option.map_eq_some_iff.mp hrun
  exact survives (Run.of_exec hs) hexited

/-- A pair that is registered while a pass has yet to advance ends the thread. This follows
the rule that any insertion makes the next advance raise; the iterator of CPython keeps to it
as long as it has pairs left, and ends without an error after the last one. -/
theorem exited_of_registration {s : State κ} {pair : κ} {now : ℚ} {index size : ℕ} (h : Fits s)
    (hthread : s.thread = some (.iterating now index size)) (hnew : pair ∉ s.targets.keys) :
    ∃ s', step (addTarget pair s) .advance = some s' ∧ Exited s' := by
  have hsize : s.targets.items.length = size := h size (by rw [State.expects, hthread]; rfl)
  have hthread' : (addTarget pair s).thread = some (.iterating now index size) := by
    unfold addTarget checkThreadsStarted
    rw [if_neg hnew]
    dsimp only
    rw [hthread]
  have hlength : (addTarget pair s).targets.items.length ≠ size := by
    unfold addTarget
    rw [targets_checkThreadsStarted, if_neg hnew]
    dsimp only
    rw [OrderedDict.length_items_set_of_not_mem hnew, hsize]
    exact Nat.succ_ne_self size
  refine ⟨_, by rw [step, hthread'], ?_⟩
  unfold advance
  rw [if_pos hlength]
  rfl

/-- **An engine created during a pass ends the worker for good**, without any `send`
that raised a `BaseException`. -/
theorem exits_without_baseException :
    ∃ (events : List (Event ℕ)) (s : State ℕ),
      Run step (fun _ _ => True) {} events s ∧ Exited s ∧ .send .baseException ∉ events := by
  have hrun : ([Event.addTarget 1, .addTarget 2, .startPass 10, .advance, .addTarget 3,
      .send .ok, .advance].foldlM (guarded step fun _ _ => True) ({} : State ℕ)).map
        State.thread = some (some .exited) := by
    decide +kernel
  obtain ⟨s, hs, hexited⟩ := Option.map_eq_some_iff.mp hrun
  exact ⟨_, s, Run.of_exec hs, hexited, by decide⟩

end SqlalchemyCollectd.Worker
