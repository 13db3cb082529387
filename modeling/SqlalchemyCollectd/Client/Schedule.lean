import SqlalchemyCollectd.Lib.Noninterference
import SqlalchemyCollectd.Client.Worker

/-!
# SqlalchemyCollectd.Client.Schedule

When the worker thread of the client plugin attempts which pair.

The dictionary `_collection_targets` is written in two places: `add_target` appends
a pair with a last call at 0, and a pass of `_process` stores its time for a pair
just before `send` is called for it. So the dictionary is determined by the history:
its pairs are the registered ones in the order of their first registration, and the
time of each is that of the last attempt to send for it, whatever became of the
attempt (`Tracks`). A pass walks over that table, and every pair stands in it once;
how far it has come is all there is to know about it (`Stands`).

The `except Exception` around `send` goes on with the next pair; any other exception
leaves `_process`, and the thread that has left it attempts nothing any more.
-/

namespace SqlalchemyCollectd.Worker

open Transition Noninterference

variable {κ : Type}

/-- The call of `sender.send` that is in progress: its pair and the time it was given. -/
def Thread.attempt? : Thread κ → Option (κ × ℚ)
  | .sending now _ _ pair => some (pair, now)
  | .top | .iterating _ _ _ | .sleeping | .exited => none

/-- The pair that an event registers. -/
def registers? : Event κ → Option κ
  | .addTarget pair => some pair
  | .connect | .startPass _ | .advance | .send _ | .wake => none

/-- The same event, with success in the place of an `Exception`. -/
def calm : Event κ → Event κ
  | .send .exception => .send .ok
  | event => event

variable [DecidableEq κ]

/-- The pairs that are registered in a history, in the order of their first registration. -/
def registered (events : List (Event κ)) : List κ := (events.filterMap registers?).eraseDups

/-- The state after an event, where it can happen. -/
def next (s : State κ) (event : Event κ) : State κ := (step s event).getD s

/-- The call of `send` that an event leads to. -/
def attempt? (s : State κ) : Event κ → Option (κ × ℚ)
  | .advance => (step s .advance).bind fun s' => s'.thread.bind Thread.attempt?
  | .addTarget _ | .connect | .startPass _ | .send _ | .wake => none

/-- The calls of `send` in a history of the process, oldest first, each with its time. -/
def attempts (events : List (Event κ)) : List (κ × ℚ) := observations next attempt? {} events

/-- The time of the last attempt to send for a pair, 0 if there was none. -/
def lastAttempt (log : List (κ × ℚ)) (pair : κ) : ℚ :=
  ((log.filter fun attempt => attempt.1 = pair).getLast?.map Prod.snd).getD 0

/-! ### Histories -/

theorem registered_addTarget (events : List (Event κ)) (pair : κ) :
    registered (events ++ [.addTarget pair]) =
      if pair ∈ registered events then registered events else registered events ++ [pair] := by
  unfold registered
  rw [List.filterMap_append, List.eraseDups_append]
  change _ ++ (List.removeAll [pair] _).eraseDups = _
  simp only [List.mem_eraseDups]
  generalize events.filterMap registers? = pairs
  by_cases hknown : pair ∈ pairs
  · simp [List.removeAll, hknown]
  · simp [List.removeAll, hknown, List.eraseDups_cons]

theorem registered_of_none {events : List (Event κ)} {event : Event κ}
    (h : registers? event = none) : registered (events ++ [event]) = registered events := by
  unfold registered
  rw [List.filterMap_append]
  simp [h]

theorem registered_nodup (events : List (Event κ)) : (registered events).Nodup := by
  induction events using List.reverseRecOn with
  | nil => exact List.nodup_nil
  | append_singleton events event ih =>
      cases event with
      | addTarget pair =>
          rw [registered_addTarget]
          split
          · exact ih
          · rename_i hnew
            exact ih.append (List.nodup_singleton pair) (by simpa using hnew)
      | connect | startPass _ | advance | send _ | wake => rwa [registered_of_none rfl]

theorem attempts_append {ok : State κ → Event κ → Prop} {events : List (Event κ)} {s : State κ}
    (h : Run step ok {} events s) (event : Event κ) :
    attempts (events ++ [event]) = attempts events ++ (attempt? s event).toList := by
  have hfoldl : events.foldl next {} = s := h.foldl_getD
  unfold attempts
  rw [observations_append, hfoldl, observations, observations, List.append_nil]

theorem lastAttempt_append_self (log : List (κ × ℚ)) (pair : κ) (now : ℚ) :
    lastAttempt (log ++ [(pair, now)]) pair = now := by
  simp [lastAttempt]

theorem lastAttempt_append_of_not_mem {log log' : List (κ × ℚ)} {pair : κ}
    (h : pair ∉ log'.map Prod.fst) : lastAttempt (log ++ log') pair = lastAttempt log pair := by
  have hnone : log'.filter (fun attempt => attempt.1 = pair) = [] := by
    rw [List.filter_eq_nil_iff]
    intro attempt hattempt heq
    exact h (List.mem_map.mpr ⟨attempt, hattempt, of_decide_eq_true heq⟩)
  unfold lastAttempt
  rw [List.filter_append, hnone, List.append_nil]

theorem lastAttempt_of_not_mem {log : List (κ × ℚ)} {pair : κ} (h : pair ∉ log.map Prod.fst) :
    lastAttempt log pair = 0 := by
  rw [← List.nil_append log, lastAttempt_append_of_not_mem h]
  rfl

/-! ### The dictionary -/

/-- `_collection_targets` holds what the history says it should. -/
structure Tracks (events : List (Event κ)) (s : State κ) : Prop where
  fits : Fits s
  items : s.targets.items =
    (registered events).map fun pair => (pair, lastAttempt (attempts events) pair)
  known : (attempts events).map Prod.fst ⊆ registered events

namespace Tracks

variable {events : List (Event κ)} {s : State κ}

theorem keys (h : Tracks events s) : s.targets.keys = registered events := by
  rw [← OrderedDict.map_fst_items, h.items, List.map_map]
  exact List.map_id _

theorem length (h : Tracks events s) : s.targets.items.length = (registered events).length := by
  rw [h.items, List.length_map]

theorem getElem? (h : Tracks events s) (index : ℕ) : s.targets.items[index]? =
    (registered events)[index]?.map fun pair => (pair, lastAttempt (attempts events) pair) := by
  rw [h.items, List.getElem?_map]

end Tracks

/-- What an advance of a fitting iterator does: it ends the pass, or attempts the next
pair, or leaves it out. -/
theorem advance_cases {s : State κ} {now : ℚ} {index size : ℕ} (h : Fits s)
    (hthread : s.thread = some (.iterating now index size)) :
    (s.targets.items[index]? = none ∧
      advance now index size s = { s with thread := some .sleeping }) ∨
    ∃ pair last, s.targets.items[index]? = some (pair, last) ∧
      ((now - last > interval ∧ advance now index size s =
          ⟨s.targets.set pair now, some (.sending now (index + 1) size pair)⟩) ∨
        (¬now - last > interval ∧ advance now index size s =
          { s with thread := some (.iterating now (index + 1) size) })) := by
  have hsize : s.targets.items.length = size := h size (by rw [State.expects, hthread]; rfl)
  unfold advance
  rw [if_neg (not_not_intro hsize)]
  cases hitem : s.targets.items[index]? with
  | none => exact Or.inl ⟨rfl, rfl⟩
  | some entry =>
      obtain ⟨pair, last⟩ := entry
      refine Or.inr ⟨pair, last, rfl, ?_⟩
      by_cases hdue : now - last > interval
      · exact Or.inl ⟨hdue, if_pos hdue⟩
      · exact Or.inr ⟨hdue, if_neg hdue⟩

theorem attempt?_advance {s s' : State κ} (hstep : step s .advance = some s') :
    attempt? s .advance = s'.thread.bind Thread.attempt? := by
  rw [attempt?, hstep, Option.bind_some]

/-- Only `add_target` and the attempts write to the dictionary. -/
theorem targets_step {s s' : State κ} {event : Event κ} (hstep : step s event = some s')
    (hregisters : registers? event = none) (hadvance : event ≠ .advance) :
    s'.targets = s.targets ∧ attempt? s event = none := by
  cases event with
  | addTarget pair => cases hregisters
  | connect =>
      obtain rfl := Option.some.inj hstep
      exact ⟨targets_checkThreadsStarted s, rfl⟩
  | startPass now =>
      obtain ⟨-, rfl⟩ := step_startPass hstep
      exact ⟨rfl, rfl⟩
  | advance => exact absurd rfl hadvance
  | send outcome =>
      obtain ⟨_, _, _, _, -, ⟨-, rfl⟩ | ⟨-, rfl⟩⟩ := step_send hstep <;> exact ⟨rfl, rfl⟩
  | wake =>
      obtain ⟨-, rfl⟩ := step_wake hstep
      exact ⟨rfl, rfl⟩

namespace Tracks

variable {events : List (Event κ)} {s s' : State κ} {event : Event κ}

/-- An event that neither registers nor attempts leaves the table alone. -/
theorem keep (h : Tracks events s)
    (hregistered : registered (events ++ [event]) = registered events)
    (hattempts : attempts (events ++ [event]) = attempts events)
    (htargets : s'.targets = s.targets) (hfits : Fits s') : Tracks (events ++ [event]) s' where
  fits := hfits
  items := by rw [htargets, h.items, hregistered, hattempts]
  known := by rw [hregistered, hattempts]; exact h.known

/-- A registration appends the pair, with a last attempt at 0. -/
theorem addTarget (h : Tracks events s) {pair : κ}
    (hattempts : attempts (events ++ [.addTarget pair]) = attempts events)
    (hfits : Fits (addTarget pair s)) :
    Tracks (events ++ [.addTarget pair]) (Worker.addTarget pair s) := by
  have htargets : (Worker.addTarget pair s).targets =
      if pair ∈ s.targets.keys then s.targets else s.targets.set pair 0 := by
    unfold Worker.addTarget
    rw [targets_checkThreadsStarted]
    split <;> rfl
  by_cases hknown : pair ∈ s.targets.keys
  · refine h.keep ?_ hattempts (by rw [htargets, if_pos hknown]) hfits
    rw [registered_addTarget, if_pos (h.keys ▸ hknown)]
  · have hnew : pair ∉ registered events := h.keys ▸ hknown
    have hregistered : registered (events ++ [.addTarget pair]) = registered events ++ [pair] := by
      rw [registered_addTarget, if_neg hnew]
    refine ⟨hfits, ?_, ?_⟩
    · rw [htargets, if_neg hknown, OrderedDict.items_set_of_not_mem hknown, h.items, hregistered,
        hattempts, List.map_append, List.map_singleton,
        lastAttempt_of_not_mem fun hmem => hnew (h.known hmem)]
    · rw [hregistered, hattempts]
      exact fun _ hmem => List.mem_append_left _ (h.known hmem)

/-- An attempt moves the pair's time to that of the pass. -/
theorem attempt (h : Tracks events s) {pair : κ} {now : ℚ} (hpair : pair ∈ registered events)
    (hregistered : registered (events ++ [event]) = registered events)
    (hattempts : attempts (events ++ [event]) = attempts events ++ [(pair, now)])
    (htargets : s'.targets = s.targets.set pair now) (hfits : Fits s') :
    Tracks (events ++ [event]) s' := by
  refine ⟨hfits, ?_, ?_⟩
  · rw [htargets, OrderedDict.items_set_of_mem h.items hpair, hregistered, hattempts]
    refine List.map_congr_left fun other _ => ?_
    by_cases hother : other = pair
    · rw [if_pos hother, hother, lastAttempt_append_self]
    · rw [if_neg hother, lastAttempt_append_of_not_mem (by simpa using hother)]
  · rw [hregistered, hattempts, List.map_append]
    intro other hmem
    rcases List.mem_append.mp hmem with hbefore | hlast
    · exact h.known hbefore
    · exact List.mem_singleton.mp hlast ▸ hpair

end Tracks

/-- **The dictionary is determined by the history**, in every quiet run. -/
theorem tracks {events : List (Event κ)} {s : State κ} (h : Run step Quiet {} events s) :
    Tracks events s := by
  induction h with
  | nil => exact ⟨fun _ h => (by cases h), rfl, fun _ h => (by cases h)⟩
  | @snoc events s event s' before hquiet hstep ih =>
      have hfits : Fits s' := (step_quiet ih.fits hquiet hstep).1
      have hattempts := attempts_append before event
      cases event with
      | addTarget pair =>
          obtain rfl := Option.some.inj hstep
          exact ih.addTarget (by rw [hattempts]; exact List.append_nil _) hfits
      | advance =>
          have hregistered : registered (events ++ [.advance]) = registered events :=
            registered_of_none rfl
          rw [attempt?_advance hstep] at hattempts
          obtain ⟨now, index, size, hthread, rfl⟩ := step_advance hstep
          rcases advance_cases ih.fits hthread with
            ⟨-, heq⟩ | ⟨pair, last, hitem, ⟨-, heq⟩ | ⟨-, heq⟩⟩
          · -- the iterator is exhausted
            rw [heq] at hfits hattempts ⊢
            exact ih.keep hregistered (hattempts.trans (List.append_nil _)) rfl hfits
          · -- the pair is due: its time is stored before `send` is called
            rw [heq] at hfits hattempts ⊢
            have hpair : pair ∈ registered events :=
              ih.keys ▸ OrderedDict.mem_keys_of_mem_items (List.mem_of_getElem? hitem)
            exact ih.attempt hpair hregistered hattempts rfl hfits
          · rw [heq] at hfits hattempts ⊢
            exact ih.keep hregistered (hattempts.trans (List.append_nil _)) rfl hfits
      | connect | startPass _ | send _ | wake =>
          obtain ⟨htargets, hnone⟩ := targets_step hstep rfl nofun
          rw [hnone] at hattempts
          exact ih.keep (registered_of_none rfl) (hattempts.trans (List.append_nil _)) htargets
            hfits

/-! ### One pass -/

/-- The pairs whose last attempt is more than the interval before `now`. -/
def due (log : List (κ × ℚ)) (now : ℚ) (pairs : List κ) : List κ :=
  pairs.filter fun pair => now - lastAttempt log pair > interval

/-- Where the worker stands, `during` after the start of a pass over `pairs` at `now`:
it has visited the first `k` of them. -/
inductive Stands (pairs : List κ) (now : ℚ) (during : List (Event κ)) (s : State κ) : ℕ → Prop
  | iterating {k : ℕ} (hthread : s.thread = some (.iterating now k pairs.length))
      (hkeys : s.targets.keys = pairs) : Stands pairs now during s k
  | sending {k : ℕ} {pair : κ} (hthread : s.thread = some (.sending now k pairs.length pair))
      (hkeys : s.targets.keys = pairs) : Stands pairs now during s k
  | finished (hthread : s.thread = some .sleeping ∨ s.thread = some .top) :
      Stands pairs now during s pairs.length
  | exited {k : ℕ} (hthread : s.thread = some .exited) (hcause : .send .baseException ∈ during) :
      Stands pairs now during s k

namespace Stands

variable {pairs : List κ} {now : ℚ} {during : List (Event κ)} {s s' : State κ} {k : ℕ}

omit [DecidableEq κ]

/-- Nothing of this changes where the thread and the keys are as before. -/
theorem frame (h : Stands pairs now during s k) (event : Event κ) (hthread : s'.thread = s.thread)
    (hkeys : InPass s → s'.targets.keys = s.targets.keys) :
    Stands pairs now (during ++ [event]) s' k := by
  cases h with
  | iterating h hpairs =>
      exact .iterating (hthread.trans h)
        ((hkeys (by simp [InPass, State.expects, h, Thread.expects])).trans hpairs)
  | sending h hpairs =>
      exact .sending (hthread.trans h)
        ((hkeys (by simp [InPass, State.expects, h, Thread.expects])).trans hpairs)
  | finished h => exact .finished (hthread ▸ h)
  | exited h hcause => exact .exited (hthread.trans h) (List.mem_append_left _ hcause)

/-- The thread of a process that has started a pass is there. -/
theorem thread_ne_none (h : Stands pairs now during s k) : s.thread ≠ none := by
  cases h with
  | iterating h _ | sending h _ | exited h _ => simp [h]
  | finished h => rcases h with h | h <;> simp [h]

end Stands

omit [DecidableEq κ] in
theorem thread_checkThreadsStarted {s : State κ} (h : s.thread ≠ none) :
    (checkThreadsStarted s).thread = s.thread := by
  unfold checkThreadsStarted
  split
  · contradiction
  · rfl

theorem thread_addTarget {s : State κ} {pair : κ} (h : s.thread ≠ none) :
    (addTarget pair s).thread = s.thread := by
  unfold addTarget
  split
  · exact thread_checkThreadsStarted h
  · exact thread_checkThreadsStarted (s := { s with targets := _ }) h

theorem keys_addTarget_of_mem {s : State κ} {pair : κ} (h : pair ∈ s.targets.keys) :
    (addTarget pair s).targets.keys = s.targets.keys := by
  unfold addTarget
  rw [if_pos h, targets_checkThreadsStarted]

/-- What leaves the visited pairs as they are. -/
theorem Stands.step {pairs : List κ} {now : ℚ} {during : List (Event κ)} {s s' : State κ} {k : ℕ}
    {event : Event κ} (h : Stands pairs now during s k) (hstart : ∀ time, event ≠ .startPass time)
    (hadvance : event ≠ .advance) (hquiet : Quiet s event) (hstep : step s event = some s') :
    Stands pairs now (during ++ [event]) s' k := by
  cases event with
  | startPass time => exact absurd rfl (hstart time)
  | advance => exact absurd rfl hadvance
  | addTarget pair =>
      obtain rfl := Option.some.inj hstep
      exact h.frame _ (thread_addTarget h.thread_ne_none) fun hpass =>
        keys_addTarget_of_mem (hquiet hpass)
  | connect =>
      obtain rfl := Option.some.inj hstep
      exact h.frame _ (thread_checkThreadsStarted h.thread_ne_none) fun _ => by
        rw [targets_checkThreadsStarted]
  | send outcome =>
      obtain ⟨now', index, size, pair, hthread, hnext⟩ := step_send hstep
      cases h with
      | iterating h _ | exited h _ => simp [h] at hthread
      | finished h => rcases h with h | h <;> simp [h] at hthread
      | sending h hkeys =>
          rw [h] at hthread
          cases hthread
          obtain ⟨rfl, rfl⟩ | ⟨-, rfl⟩ := hnext
          · exact .exited rfl (List.mem_append_right _ List.mem_cons_self)
          · exact .iterating rfl hkeys
  | wake =>
      obtain ⟨hthread, rfl⟩ := step_wake hstep
      cases h with
      | iterating h _ | sending h _ | exited h _ => simp [h] at hthread
      | finished _ => exact .finished (Or.inr rfl)

/-- **A pass, as far as it has come**: it has visited the first so many of the registered
pairs, and attempted exactly those of them that were due. -/
def Swept (before : List (Event κ)) (now : ℚ) (during : List (Event κ)) (s : State κ) : Prop :=
  ∃ k, Stands (registered before) now during s k ∧
    attempts (before ++ .startPass now :: during) = attempts before ++
      (due (attempts before) now ((registered before).take k)).map fun pair => (pair, now)

theorem due_take_succ {log : List (κ × ℚ)} {now : ℚ} {pairs : List κ} {k : ℕ} {pair : κ}
    (h : pairs[k]? = some pair) : due log now (pairs.take (k + 1)) = due log now (pairs.take k) ++
      if now - lastAttempt log pair > interval then [pair] else [] := by
  unfold due
  rw [List.take_add_one, h, List.filter_append]
  by_cases hdue : now - lastAttempt log pair > interval
  · simp [hdue]
  · simp [hdue]

/-- What is still to be visited in this pass has not been attempted in it. -/
theorem lastAttempt_unvisited {log : List (κ × ℚ)} {now : ℚ} {pairs : List κ} {k : ℕ} {pair : κ}
    (hnodup : pairs.Nodup) (h : pairs[k]? = some pair) :
    lastAttempt (log ++ (due log now (pairs.take k)).map fun pair => (pair, now)) pair =
      lastAttempt log pair := by
  refine lastAttempt_append_of_not_mem fun hmem => ?_
  rw [List.map_map] at hmem
  obtain ⟨visited, hvisited, rfl⟩ := List.mem_map.mp hmem
  obtain ⟨hk, hget⟩ := List.getElem?_eq_some_iff.mp h
  obtain ⟨i, hi, hvisited⟩ := List.mem_take_iff_getElem.mp (List.mem_of_mem_filter hvisited)
  have hsame : i = k := hnodup.getElem_inj_iff.mp (hvisited.trans hget.symm)
  omega

section Pass

variable {before during : List (Event κ)} {now : ℚ} {s s' : State κ}

/-- An advance visits the next pair, and attempts it if it is due. -/
theorem Swept.advance (h : Swept before now during s)
    (htracks : Tracks (before ++ .startPass now :: during) s) (hstep : step s .advance = some s')
    (hattempts : attempts (before ++ .startPass now :: (during ++ [.advance])) =
      attempts (before ++ .startPass now :: during) ++ (attempt? s .advance).toList) :
    Swept before now (during ++ [.advance]) s' := by
  obtain ⟨k, hstands, hsofar⟩ := h
  rw [attempt?_advance hstep] at hattempts
  obtain ⟨now', index, size, hthread, rfl⟩ := step_advance hstep
  cases hstands with
  | sending h _ | exited h _ => rw [h] at hthread; cases hthread
  | finished h => rcases h with h | h <;> (rw [h] at hthread; cases hthread)
  | iterating h hkeys =>
      rw [h] at hthread
      cases hthread
      have hitem := htracks.getElem? k
      rw [← htracks.keys, hkeys, hsofar] at hitem
      rcases advance_cases htracks.fits h with
        ⟨hnone, heq⟩ | ⟨pair, last, hsome, ⟨hdue, heq⟩ | ⟨hdue, heq⟩⟩
      · -- the iterator is exhausted
        rw [hitem, Option.map_eq_none_iff, List.getElem?_eq_none_iff] at hnone
        rw [heq] at hattempts ⊢
        refine ⟨_, .finished (Or.inl rfl), ?_⟩
        rw [hattempts, hsofar, List.take_of_length_le hnone, List.take_length]
        exact List.append_nil _
      all_goals
        rw [hitem, Option.map_eq_some_iff] at hsome
        obtain ⟨visited, hget, hentry⟩ := hsome
        obtain ⟨rfl, rfl⟩ := Prod.mk.inj hentry
        rw [lastAttempt_unvisited (registered_nodup before) hget] at hdue
        rw [heq] at hattempts ⊢
      · refine ⟨_, .sending rfl ?_, ?_⟩
        · have hmem : visited ∈ s.targets.keys := hkeys ▸ List.mem_of_getElem? hget
          exact (OrderedDict.keys_set _ _ _).trans (by rw [if_pos hmem, hkeys])
        · rw [hattempts, hsofar, due_take_succ hget, if_pos hdue, List.map_append,
            List.append_assoc]
          rfl
      · refine ⟨_, .iterating rfl hkeys, ?_⟩
        rw [hattempts, hsofar, due_take_succ hget, if_neg hdue, List.append_nil]
        exact List.append_nil _

/-- The start of a pass: nothing is visited yet. -/
theorem Swept.start (htracks : Tracks before s) (hstep : step s (.startPass now) = some s')
    (hattempts : attempts (before ++ [.startPass now]) = attempts before) :
    Swept before now [] s' := by
  obtain ⟨-, rfl⟩ := step_startPass hstep
  exact ⟨0, .iterating (by rw [htracks.length]) htracks.keys, by simp [hattempts, due]⟩

end Pass

/-- **One pass of `_process`**, at any moment of it, in a quiet run. -/
theorem swept {before during : List (Event κ)} {now : ℚ} {s : State κ}
    (h : Run step Quiet {} (before ++ .startPass now :: during) s)
    (hone : ∀ time, .startPass time ∉ during) : Swept before now during s := by
  induction during using List.reverseRecOn generalizing s with
  | nil =>
      obtain ⟨s₀, hbefore, hquiet, hstep⟩ := h.snoc_inv
      exact Swept.start (tracks hbefore) hstep
        ((attempts_append hbefore _).trans (List.append_nil _))
  | append_singleton during event ih =>
      rw [← List.cons_append, ← List.append_assoc] at h
      obtain ⟨s₀, hrun, hquiet, hstep⟩ := h.snoc_inv
      have hswept := ih hrun fun time hmem => hone time (List.mem_append_left _ hmem)
      have hattempts := attempts_append hrun event
      rw [List.append_assoc, List.cons_append] at hattempts
      by_cases hadvance : event = .advance
      · subst hadvance
        exact hswept.advance (tracks hrun) hstep hattempts
      · have hnone : attempt? s₀ event = none := by
          cases event with
          | advance => exact absurd rfl hadvance
          | addTarget _ | connect | startPass _ | send _ | wake => rfl
        rw [hnone] at hattempts
        obtain ⟨k, hstands, hsofar⟩ := hswept
        refine ⟨k, hstands.step ?_ hadvance hquiet hstep,
          hattempts.trans ((List.append_nil _).trans hsofar)⟩
        exact fun time heq => hone time (by simp [heq])

/-- **The attempts of a pass** are those of the registered pairs that are due, each once and
in the order of registration; a pass that is over, with no `BaseException`, has left no
pair out. -/
theorem attempts_pass {before during : List (Event κ)} {now : ℚ} {s : State κ}
    (h : Run step Quiet {} (before ++ .startPass now :: during) s)
    (hone : ∀ time, .startPass time ∉ during) :
    ∃ visited unvisited, registered before = visited ++ unvisited ∧ (registered before).Nodup ∧
      attempts (before ++ .startPass now :: during) =
        attempts before ++ (due (attempts before) now visited).map (fun pair => (pair, now)) ∧
      (¬InPass s → .send .baseException ∉ during → unvisited = []) := by
  obtain ⟨k, hstands, hattempts⟩ := swept h hone
  refine ⟨_, _, (List.take_append_drop k _).symm, registered_nodup before, hattempts, ?_⟩
  intro hover hnone
  cases hstands with
  | iterating hthread _ | sending hthread _ =>
      exact absurd (by simp [InPass, State.expects, hthread, Thread.expects]) hover
  | finished _ => exact List.drop_length
  | exited _ hcause => exact absurd hcause hnone

/-! ### Failures -/

/-- The `except Exception` around `send` makes its failure no different from success. -/
theorem step_calm (s : State κ) (event : Event κ) : step s (calm event) = step s event := by
  cases event with
  | send outcome => cases outcome <;> rfl
  | addTarget _ | connect | startPass _ | advance | wake => rfl

omit [DecidableEq κ] in
theorem quiet_calm (s : State κ) (event : Event κ) : Quiet s (calm event) ↔ Quiet s event := by
  cases event with
  | send outcome => cases outcome <;> exact Iff.rfl
  | addTarget _ | connect | startPass _ | advance | wake => exact Iff.rfl

theorem attempt?_calm (s : State κ) (event : Event κ) :
    attempt? s (calm event) = attempt? s event := by
  cases event with
  | send outcome => cases outcome <;> rfl
  | addTarget _ | connect | startPass _ | advance | wake => rfl

theorem attempts_map_calm (events : List (Event κ)) :
    attempts (events.map calm) = attempts events :=
  observations_map (fun s event => by rw [next, step_calm, next]) attempt?_calm

/-- **An `Exception` changes neither what happens nor what is attempted.** -/
theorem attempts_of_calm {events events' : List (Event κ)}
    (h : events.map calm = events'.map calm) (s : State κ) :
    (Run step Quiet {} events s ↔ Run step Quiet {} events' s) ∧
      attempts events = attempts events' := by
  rw [← Run.map_iff quiet_calm step_calm, h, Run.map_iff quiet_calm step_calm,
    ← attempts_map_calm, h, attempts_map_calm]
  exact ⟨Iff.rfl, rfl⟩

/-- A thread that has exited stays so, and attempts nothing. -/
theorem step_exited {s s' : State κ} {event : Event κ} (h : Exited s)
    (hstep : step s event = some s') : Exited s' ∧ attempt? s event = none := by
  have hthread : s.thread = some .exited := h
  cases event with
  | addTarget pair =>
      obtain rfl := Option.some.inj hstep
      exact ⟨exited_addTarget.mpr h, rfl⟩
  | connect =>
      obtain rfl := Option.some.inj hstep
      exact ⟨exited_checkThreadsStarted.mpr h, rfl⟩
  | startPass _ | advance | send _ | wake => simp [step, hthread] at hstep

/-- **After a `BaseException` that is not an `Exception` nothing is attempted.** -/
theorem attempts_after_baseException {before after : List (Event κ)} {s : State κ}
    (h : Run step Quiet {} (before ++ .send .baseException :: after) s) :
    Exited s ∧ attempts (before ++ .send .baseException :: after) = attempts before := by
  induction after using List.reverseRecOn generalizing s with
  | nil =>
      obtain ⟨s₀, hbefore, -, hstep⟩ := h.snoc_inv
      refine ⟨?_, (attempts_append hbefore _).trans (List.append_nil _)⟩
      obtain ⟨_, _, _, _, -, ⟨-, rfl⟩ | ⟨hne, -⟩⟩ := step_send hstep
      · rfl
      · exact absurd rfl hne
  | append_singleton after event ih =>
      rw [← List.cons_append, ← List.append_assoc] at h
      obtain ⟨s₀, hrun, -, hstep⟩ := h.snoc_inv
      obtain ⟨hexited, hsofar⟩ := ih hrun
      obtain ⟨hexited', hnone⟩ := step_exited hexited hstep
      have hattempts := attempts_append hrun event
      rw [hnone, List.append_assoc, List.cons_append] at hattempts
      exact ⟨hexited', hattempts.trans ((List.append_nil _).trans hsofar)⟩

end SqlalchemyCollectd.Worker
