import SqlalchemyCollectd.Client.Schedule

/-!
# SqlalchemyCollectd.Client.Script

What the worker does when it is told when to wake and how its calls of `send` end.

A script is a list of ticks, each with its time and the outcome of every call that may be
made at it. `planned` reads the attempts off a script: at every tick the pairs that are
due, up to the first whose call raises a `BaseException`. Every script can be played for
every list of registered pairs (`exists_plays`), and a worker that plays it attempts what
is planned (`attempts_plays`); with what is known of all runs this is the schedule of the
worker (`schedule`).
-/

namespace SqlalchemyCollectd.Worker

open Transition Noninterference

variable {κ : Type}

/-- A call of `send` ends as `outcome` says for its pair. -/
def Follows (outcome : κ → Outcome) (s : State κ) : Event κ → Prop
  | .send result =>
      ∀ now index size pair, s.thread = some (.sending now index size pair) → result = outcome pair
  | _ => True

/-- Some calls of `send`, up to the first that raises a `BaseException`. -/
def upToFatal (outcome : κ → Outcome) : List κ → List κ
  | [] => []
  | pair :: pairs =>
      pair :: if outcome pair = .baseException then [] else upToFatal outcome pairs

section UpToFatal

variable {outcome : κ → Outcome} {pairs : List κ}

theorem upToFatal_of_calm (h : ∀ pair ∈ pairs, outcome pair ≠ .baseException) :
    upToFatal outcome pairs = pairs := by
  induction pairs with
  | nil => rfl
  | cons pair pairs ih =>
      obtain ⟨hpair, hpairs⟩ := List.forall_mem_cons.mp h
      rw [upToFatal, if_neg hpair, ih hpairs]

theorem upToFatal_of_fatal {pair : κ} {rest : List κ}
    (h : ∀ pair ∈ pairs, outcome pair ≠ .baseException) (hfatal : outcome pair = .baseException) :
    upToFatal outcome (pairs ++ pair :: rest) = pairs ++ [pair] := by
  induction pairs with
  | nil => rw [List.nil_append, upToFatal, if_pos hfatal, List.nil_append]
  | cons first pairs ih =>
      obtain ⟨hfirst, hpairs⟩ := List.forall_mem_cons.mp h
      rw [List.cons_append, upToFatal, if_neg hfirst, ih hpairs, List.cons_append]

end UpToFatal

variable [DecidableEq κ]

/-- The attempts that a script leads to, after those that have been made. -/
def planned (pairs : List κ) : List (ℚ × (κ → Outcome)) → List (κ × ℚ) → List (κ × ℚ)
  | [], log => log
  | (now, outcome) :: ticks, log =>
      let calls := upToFatal outcome (due log now pairs)
      let log := log ++ calls.map fun pair => (pair, now)
      if ∃ pair ∈ calls, outcome pair = .baseException then log else planned pairs ticks log

/-- A pass at a tick and what follows until the worker is woken, with no registrations. -/
structure Tick (now : ℚ) (outcome : κ → Outcome) (s : State κ) (during : List (Event κ))
    (s' : State κ) : Prop where
  run : Run step (fun s event => Quiet s event ∧ Follows outcome s event) s
    (.startPass now :: during) s'
  once : ∀ time, .startPass time ∉ during
  registers : during.filterMap registers? = []

/-- The worker goes through the ticks of a script, until it exits. -/
inductive Plays : List (ℚ × (κ → Outcome)) → State κ → List (Event κ) → State κ → Prop
  | nil {s : State κ} : Plays [] s [] s
  | tick {now : ℚ} {outcome : κ → Outcome} {ticks : List (ℚ × (κ → Outcome))}
      {s s' s'' : State κ} {during events : List (Event κ)} (htick : Tick now outcome s during s')
      (htop : s'.thread = some .top) (hrest : Plays ticks s' events s'') :
      Plays ((now, outcome) :: ticks) s (.startPass now :: during ++ events) s''
  | exit {now : ℚ} {outcome : κ → Outcome} {ticks : List (ℚ × (κ → Outcome))} {s s' : State κ}
      {during : List (Event κ)} (htick : Tick now outcome s during s') (hexited : Exited s') :
      Plays ((now, outcome) :: ticks) s (.startPass now :: during) s'

/-! ### The calls of a pass -/

/-- The calls of `send` in a pass and where the thread stands: only the last call can have
raised a `BaseException`, and the thread has exited if it has. -/
inductive Obeys (outcome : κ → Outcome) : List (κ × ℚ) → Option (Thread κ) → Prop
  | calm {calls : List (κ × ℚ)} {thread : Option (Thread κ)}
      (hcalls : ∀ call ∈ calls, outcome call.1 ≠ .baseException)
      (hthread : thread = some .top ∨ thread = some .sleeping ∨
        ∃ now index size, thread = some (.iterating now index size)) : Obeys outcome calls thread
  | sending {calls : List (κ × ℚ)} {now : ℚ} {index size : ℕ} {pair : κ}
      (hcalls : ∀ call ∈ calls, outcome call.1 ≠ .baseException) :
      Obeys outcome (calls ++ [(pair, now)]) (some (.sending now index size pair))
  | exited {calls : List (κ × ℚ)} {call : κ × ℚ}
      (hcalls : ∀ call ∈ calls, outcome call.1 ≠ .baseException)
      (hfatal : outcome call.1 = .baseException) : Obeys outcome (calls ++ [call]) (some .exited)

omit [DecidableEq κ] in
theorem Obeys.thread_ne_none {outcome : κ → Outcome} {calls : List (κ × ℚ)}
    {thread : Option (Thread κ)} (h : Obeys outcome calls thread) : thread ≠ none := by
  cases h with
  | calm hcalls hthread => rcases hthread with h | h | ⟨_, _, _, h⟩ <;> simp [h]
  | sending hcalls => simp
  | exited hcalls hfatal => simp

/-- **One step of a pass.** -/
theorem Obeys.step {outcome : κ → Outcome} {calls : List (κ × ℚ)} {s s' : State κ}
    {event : Event κ} (h : Obeys outcome calls s.thread) (hfits : Fits s)
    (hfollows : Follows outcome s event) (hstep : step s event = some s') :
    Obeys outcome (calls ++ (attempt? s event).toList) s'.thread := by
  cases event with
  | addTarget pair =>
      obtain rfl := Option.some.inj hstep
      rw [thread_addTarget h.thread_ne_none]
      exact (List.append_nil calls).symm ▸ h
  | connect =>
      obtain rfl := Option.some.inj hstep
      rw [thread_checkThreadsStarted h.thread_ne_none]
      exact (List.append_nil calls).symm ▸ h
  | startPass now =>
      obtain ⟨htop, rfl⟩ := step_startPass hstep
      rw [htop] at h
      cases h with
      | calm hcalls _ =>
          exact (List.append_nil calls).symm ▸ .calm hcalls (Or.inr (Or.inr ⟨_, _, _, rfl⟩))
  | advance =>
      rw [attempt?_advance hstep]
      obtain ⟨now, index, size, hthread, rfl⟩ := step_advance hstep
      rw [hthread] at h
      cases h with
      | calm hcalls _ =>
          rcases advance_cases hfits hthread with
            ⟨-, heq⟩ | ⟨pair, last, -, ⟨-, heq⟩ | ⟨-, heq⟩⟩
          · rw [heq]
            exact (List.append_nil calls).symm ▸ .calm hcalls (Or.inr (Or.inl rfl))
          · rw [heq]
            exact .sending hcalls
          · rw [heq]
            exact (List.append_nil calls).symm ▸ .calm hcalls (Or.inr (Or.inr ⟨_, _, _, rfl⟩))
  | send result =>
      obtain ⟨now, index, size, pair, hthread, hnext⟩ := step_send hstep
      have hresult : result = outcome pair := hfollows _ _ _ _ hthread
      rw [hthread] at h
      cases h with
      | calm _ hthread => simp at hthread
      | @sending before _ _ _ _ hcalls =>
          refine (List.append_nil (before ++ [(pair, now)])).symm ▸ ?_
          rcases hnext with ⟨hfatal, rfl⟩ | ⟨hne, rfl⟩
          · exact .exited hcalls (hresult.symm.trans hfatal)
          · refine .calm ?_ (Or.inr (Or.inr ⟨_, _, _, rfl⟩))
            intro call hcall
            rcases List.mem_append.mp hcall with hcall | hcall
            · exact hcalls call hcall
            · obtain rfl := List.mem_singleton.mp hcall
              exact hresult ▸ hne
  | wake =>
      obtain ⟨hthread, rfl⟩ := step_wake hstep
      rw [hthread] at h
      cases h with
      | calm hcalls _ => exact (List.append_nil calls).symm ▸ .calm hcalls (Or.inl rfl)

/-- The calls of a pass, at any moment of it. -/
theorem obeys_run {outcome : κ → Outcome} {s s' : State κ} {events : List (Event κ)}
    (htop : s.thread = some .top) (hfits : Fits s)
    (h : Run step (fun s event => Quiet s event ∧ Follows outcome s event) s events s') :
    Obeys outcome (observations next attempt? s events) s'.thread := by
  suffices hboth : Fits s' ∧ Obeys outcome (observations next attempt? s events) s'.thread from
    hboth.2
  induction h with
  | nil => exact ⟨hfits, .calm (by simp [observations]) (Or.inl htop)⟩
  | @snoc events mid event s' before hok hstep ih =>
      have hmid : events.foldl next s = mid := before.foldl_getD
      have hobserved : observations next attempt? s (events ++ [event]) =
          observations next attempt? s events ++ (attempt? mid event).toList := by
        rw [observations_append, hmid, observations, observations, List.append_nil]
      rw [hobserved]
      exact ⟨(step_quiet ih.1 hok.1 hstep).1, ih.2.step ih.1 hok.2 hstep⟩

omit [DecidableEq κ] in
theorem Obeys.of_top {outcome : κ → Outcome} {calls : List (κ × ℚ)}
    (h : Obeys outcome calls (some .top)) : ∀ call ∈ calls, outcome call.1 ≠ .baseException := by
  cases h with
  | calm hcalls _ => exact hcalls

omit [DecidableEq κ] in
theorem Obeys.of_exited {outcome : κ → Outcome} {calls : List (κ × ℚ)}
    (h : Obeys outcome calls (some .exited)) : ∃ before call, calls = before ++ [call] ∧
      (∀ call ∈ before, outcome call.1 ≠ .baseException) ∧ outcome call.1 = .baseException := by
  cases h with
  | calm _ hthread => simp at hthread
  | exited hcalls hfatal => exact ⟨_, _, rfl, hcalls, hfatal⟩

theorem due_append (log : List (κ × ℚ)) (now : ℚ) (pairs pairs' : List κ) :
    due log now (pairs ++ pairs') = due log now pairs ++ due log now pairs' :=
  List.filter_append ..

/-- **The attempts of a tick**, when it is over. -/
theorem Tick.attempts {before during : List (Event κ)} {now : ℚ} {outcome : κ → Outcome}
    {s s' : State κ} (h : Tick now outcome s during s') (hbefore : Run step Quiet {} before s)
    (hover : s'.thread = some .top ∨ Exited s') :
    Worker.attempts (before ++ .startPass now :: during) = Worker.attempts before ++
      (upToFatal outcome (due (Worker.attempts before) now (registered before))).map
        (fun pair => (pair, now)) ∧
    (Exited s' ↔ ∃ pair ∈ upToFatal outcome (due (Worker.attempts before) now (registered before)),
      outcome pair = .baseException) := by
  have hquiet : Run step Quiet {} (before ++ .startPass now :: during) s' :=
    hbefore.append (h.run.mono fun _ _ => And.left)
  obtain ⟨k, hstands, hattempts⟩ := swept hquiet h.once
  obtain ⟨mid, -, hstart, -⟩ := h.run.cons_inv
  have hobeys := obeys_run (step_startPass hstart).1 (tracks hbefore).fits h.run
  -- the calls that were made are those for the pairs that the pass has come to
  have hcalls : observations next attempt? s (.startPass now :: during) =
      (due (Worker.attempts before) now ((registered before).take k)).map
        fun pair => (pair, now) := by
    have hfoldl : before.foldl next {} = s := hbefore.foldl_getD
    have hsplit : Worker.attempts (before ++ .startPass now :: during) =
        Worker.attempts before ++ observations next attempt? s (.startPass now :: during) := by
      rw [Worker.attempts, observations_append, hfoldl, Worker.attempts]
    exact List.append_cancel_left (hsplit.symm.trans hattempts)
  rw [hcalls] at hobeys
  rcases hover with htop | hexited
  · -- all pairs were visited, and no call was fatal
    rw [htop] at hobeys
    obtain rfl : k = (registered before).length := by
      cases hstands with
      | finished _ => rfl
      | iterating hthread _ | sending hthread _ | exited hthread _ => simp [htop] at hthread
    rw [List.take_length] at hattempts hobeys
    have hcalm : ∀ pair ∈ due (Worker.attempts before) now (registered before),
        outcome pair ≠ .baseException := fun pair hpair =>
      hobeys.of_top _ (List.mem_map.mpr ⟨pair, hpair, rfl⟩)
    rw [upToFatal_of_calm hcalm]
    refine ⟨hattempts, fun hexited => ?_, fun ⟨pair, hpair, hfatal⟩ => ?_⟩
    · rw [Exited, htop] at hexited
      cases hexited
    · exact absurd hfatal (hcalm pair hpair)
  · have hthread : s'.thread = some .exited := hexited
    rw [hthread] at hobeys
    obtain ⟨calls, call, hlast, hcalm, hfatal⟩ := hobeys.of_exited
    obtain ⟨visited, last, hdue, rfl, hcall⟩ := List.map_eq_append_iff.mp hlast
    obtain ⟨pair, rest, rfl, rfl, hrest⟩ := List.map_eq_cons_iff.mp hcall
    obtain rfl := List.map_eq_nil_iff.mp hrest
    have hvisited : ∀ pair ∈ visited, outcome pair ≠ .baseException := fun pair hpair =>
      hcalm _ (List.mem_map.mpr ⟨pair, hpair, rfl⟩)
    have hall : due (Worker.attempts before) now (registered before) = visited ++ pair ::
        due (Worker.attempts before) now ((registered before).drop k) := by
      calc due (Worker.attempts before) now (registered before)
        _ = due (Worker.attempts before) now
              ((registered before).take k ++ (registered before).drop k) := by
            rw [List.take_append_drop]
        _ = _ := by
            rw [due_append, hdue, List.append_assoc]
            rfl
    rw [hall, upToFatal_of_fatal hvisited hfatal, ← hdue]
    refine ⟨hattempts, fun _ => ⟨pair, ?_, hfatal⟩, fun _ => hexited⟩
    rw [hdue]
    exact List.mem_append_right _ List.mem_cons_self

theorem registered_of_registers {before during : List (Event κ)}
    (h : during.filterMap registers? = []) : registered (before ++ during) = registered before := by
  rw [registered, List.filterMap_append, h, List.append_nil, registered]

/-- **A script leads to the attempts that are planned.** -/
theorem attempts_plays {ticks : List (ℚ × (κ → Outcome))} {s s' : State κ}
    {before events : List (Event κ)} (h : Plays ticks s events s')
    (hbefore : Run step Quiet {} before s) :
    attempts (before ++ events) = planned (registered before) ticks (attempts before) := by
  induction h generalizing before with
  | nil => rw [List.append_nil, planned]
  | @tick now outcome ticks s mid s' during events htick htop hrest ih =>
      obtain ⟨hattempts, hexited⟩ := htick.attempts hbefore (Or.inl htop)
      have hmid := hbefore.append (htick.run.mono fun _ _ => And.left)
      have hregistered : registered (before ++ .startPass now :: during) = registered before :=
        registered_of_registers htick.registers
      have hgoes : ¬Exited mid := by
        rw [Exited, htop]
        simp
      rw [planned, if_neg fun hfatal => hgoes (hexited.mpr hfatal), ← hattempts, ← List.append_assoc,
        ih hmid, hregistered]
  | exit htick hexited =>
      obtain ⟨hattempts, hfatal⟩ := htick.attempts hbefore (Or.inr hexited)
      rw [planned, if_pos (hfatal.mp hexited), hattempts]

/-! ### Playing a script -/

/-- The pass can be run on from `s` to its end. -/
def Ends (outcome : κ → Outcome) (s : State κ) : Prop :=
  ∃ during s', Run step (fun s event => Quiet s event ∧ Follows outcome s event) s during s' ∧
    (∀ time, .startPass time ∉ during) ∧ during.filterMap registers? = [] ∧
    (s'.thread = some .sleeping ∨ Exited s')

theorem Ends.of_over {outcome : κ → Outcome} {s : State κ}
    (h : s.thread = some .sleeping ∨ Exited s) : Ends outcome s :=
  ⟨[], s, .nil, by simp, rfl, h⟩

theorem Ends.of_step {outcome : κ → Outcome} {s s' : State κ} (event : Event κ)
    (hregisters : registers? event = none) (hfollows : Follows outcome s event)
    (hstep : step s event = some s') (hstart : ∀ time, event ≠ .startPass time)
    (h : Ends outcome s') : Ends outcome s := by
  obtain ⟨during, s'', hrun, hone, hnone, hover⟩ := h
  have hquiet : Quiet s event := by
    cases event with
    | addTarget pair => cases hregisters
    | connect | startPass _ | advance | send _ | wake => trivial
  refine ⟨event :: during, s'', hrun.cons ⟨hquiet, hfollows⟩ hstep, ?_, ?_, hover⟩
  · intro time hmem
    rcases List.mem_cons.mp hmem with heq | hmem
    · exact hstart time heq.symm
    · exact hone time hmem
  · rwa [List.filterMap_cons_none hregisters]

/-- A call of `send` ends as it is told to, and so does the pass if it does from there. -/
theorem Ends.of_send {outcome : κ → Outcome} {s : State κ} {now : ℚ} {index size : ℕ} {pair : κ}
    (hthread : s.thread = some (.sending now index size pair))
    (h : Ends outcome { s with thread := some (.iterating now index size) }) : Ends outcome s := by
  have hfollows : Follows outcome s (.send (outcome pair)) := by
    intro now' index' size' pair' hthread'
    rw [hthread] at hthread'
    cases hthread'
    rfl
  cases houtcome : outcome pair with
  | ok | exception =>
      rw [houtcome] at hfollows
      exact Ends.of_step _ rfl hfollows (by simp only [step, hthread]) (by simp) h
  | baseException =>
      rw [houtcome] at hfollows
      have hstep : step s (.send .baseException) = some { s with thread := some .exited } := by
        simp only [step, hthread]
      exact Ends.of_step _ rfl hfollows hstep (by simp) (Ends.of_over (Or.inr rfl))

/-- A pass runs to its end, whatever becomes of the calls of `send`. -/
theorem pass_ends {s : State κ} {now : ℚ} {index size : ℕ} (outcome : κ → Outcome) (h : Fits s)
    (hthread : s.thread = some (.iterating now index size)) : Ends outcome s := by
  induction hleft : size - index generalizing s index with
  | zero =>
      have hsize : s.targets.items.length = size := h size (by rw [State.expects, hthread]; rfl)
      have hnone : s.targets.items[index]? = none := List.getElem?_eq_none (by omega)
      have hstep : step s .advance = some (advance now index size s) := by rw [step, hthread]
      refine Ends.of_step .advance rfl trivial hstep (by simp) (Ends.of_over (Or.inl ?_))
      rcases advance_cases h hthread with ⟨-, heq⟩ | ⟨pair, last, hsome, -⟩
      · rw [heq]
      · rw [hnone] at hsome
        cases hsome
  | succ left ih =>
      have hstep : step s .advance = some (advance now index size s) := by rw [step, hthread]
      obtain ⟨hfits, -⟩ := h.advance hthread
      refine Ends.of_step .advance rfl trivial hstep (by simp) ?_
      rcases advance_cases h hthread with ⟨-, heq⟩ | ⟨pair, last, -, ⟨-, heq⟩ | ⟨-, heq⟩⟩
      · rw [heq]
        exact Ends.of_over (Or.inl rfl)
      · rw [heq] at hfits ⊢
        refine Ends.of_send rfl (ih ?_ rfl (by omega))
        exact hfits
      · rw [heq] at hfits ⊢
        exact ih hfits rfl (by omega)

/-- Every pass is run to its end, and the worker woken. -/
theorem exists_tick {before : List (Event κ)} {s : State κ} (h : Run step Quiet {} before s)
    (htop : s.thread = some .top) (now : ℚ) (outcome : κ → Outcome) :
    ∃ during s', Tick now outcome s during s' ∧ (s'.thread = some .top ∨ Exited s') := by
  have hstep : step s (.startPass now) =
      some { s with thread := some (.iterating now 0 s.targets.items.length) } := by
    rw [step, htop]
  have hquiet : Quiet s (.startPass now) := trivial
  have hfits := (step_quiet (tracks h).fits hquiet hstep).1
  obtain ⟨during, s', hrun, hone, hnone, hover⟩ := pass_ends outcome hfits rfl
  have hpass := hrun.cons ⟨hquiet, trivial⟩ hstep
  rcases hover with hsleeping | hexited
  · refine ⟨during ++ [.wake], { s' with thread := some .top }, ⟨?_, ?_, ?_⟩, Or.inl rfl⟩
    · have hwake : step s' .wake = some { s' with thread := some .top } := by
        rw [step, hsleeping]
      exact hpass.snoc ⟨trivial, trivial⟩ hwake
    · exact fun time hmem => hone time (by simpa using hmem)
    · rw [List.filterMap_append, hnone]
      rfl
  · exact ⟨during, s', ⟨hpass, hone, hnone⟩, Or.inr hexited⟩

/-- **Every script can be played**, from wherever the worker is at the top of its loop. -/
theorem exists_plays (ticks : List (ℚ × (κ → Outcome))) {before : List (Event κ)} {s : State κ}
    (h : Run step Quiet {} before s) (htop : s.thread = some .top) :
    ∃ events s', Plays ticks s events s' := by
  induction ticks generalizing before s with
  | nil => exact ⟨[], s, .nil⟩
  | cons tick ticks ih =>
      obtain ⟨now, outcome⟩ := tick
      obtain ⟨during, mid, htick, hmid⟩ := exists_tick h htop now outcome
      rcases hmid with hmid | hexited
      · obtain ⟨events, s', hplays⟩ := ih (h.append (htick.run.mono fun _ _ => And.left)) hmid
        exact ⟨_, s', .tick htick hmid hplays⟩
      · exact ⟨_, mid, .exit htick hexited⟩

/-- Registering a list of pairs starts the worker. -/
theorem exists_registered (pairs : List κ) (hpairs : pairs ≠ []) :
    ∃ s, Run step Quiet {} (pairs.map .addTarget) s ∧ s.thread = some .top := by
  induction pairs using List.reverseRecOn with
  | nil => exact absurd rfl hpairs
  | append_singleton pairs pair ih =>
      obtain ⟨s, hrun, hthread⟩ : ∃ s : State κ, Run step Quiet {} (pairs.map .addTarget) s ∧
          (s.thread = none ∨ s.thread = some .top) := by
        rcases eq_or_ne pairs [] with rfl | hne
        · exact ⟨{}, .nil, Or.inl rfl⟩
        · obtain ⟨s, hrun, htop⟩ := ih hne
          exact ⟨s, hrun, Or.inr htop⟩
      -- no pass is in progress, so the registration is quiet
      have hquiet : Quiet s (.addTarget pair) := fun hpass => by
        rcases hthread with hthread | hthread <;>
          simp [InPass, State.expects, hthread, Thread.expects] at hpass
      refine ⟨addTarget pair s, by simpa using hrun.snoc hquiet rfl, ?_⟩
      rcases hthread with hthread | hthread
      · have hnone : (if pair ∈ s.targets.keys then s
            else { s with targets := s.targets.set pair 0 }).thread = none := by
          split <;> exact hthread
        rw [addTarget, checkThreadsStarted, hnone]
      · rw [thread_addTarget (by simp [hthread]), hthread]

theorem registered_map_addTarget (pairs : List κ) :
    registered (pairs.map Event.addTarget) = pairs.eraseDups := by
  rw [registered, List.filterMap_map]
  exact congrArg List.eraseDups List.filterMap_some

theorem attempts_map_addTarget (pairs : List κ) :
    attempts (pairs.map Event.addTarget) = [] := by
  have hnone : ∀ s : State κ, observations next attempt? s (pairs.map .addTarget) = [] := by
    induction pairs with
    | nil => exact fun _ => rfl
    | cons pair pairs ih => exact fun s => ih _
  exact hnone {}

/-- **The schedule of the worker**, in every run that registers no new pair during a pass.
A pass attempts the pairs whose last attempt is more than the interval ago, each once and
in the order of registration, up to the pair it has reached, and all of them when it ends
without a `BaseException`. Runs that differ in `Exception`s only have the same attempts.
After a `BaseException` that is not an `Exception` there are none. Every pass can be
run to its end, with any outcomes of its calls of `send`. And once pairs are registered every
script of ticks and outcomes can be played, and what is attempted is then what is planned. -/
theorem schedule :
    (∀ (before during : List (Event κ)) (now : ℚ) (s : State κ),
      Run step Quiet {} (before ++ .startPass now :: during) s →
      (∀ time, .startPass time ∉ during) →
      ∃ visited unvisited, registered before = visited ++ unvisited ∧ (registered before).Nodup ∧
        attempts (before ++ .startPass now :: during) =
          attempts before ++ (due (attempts before) now visited).map (fun pair => (pair, now)) ∧
        (¬InPass s → .send .baseException ∉ during → unvisited = [])) ∧
    (∀ (events events' : List (Event κ)), events.map calm = events'.map calm →
      ∀ s, (Run step Quiet {} events s ↔ Run step Quiet {} events' s) ∧
        attempts events = attempts events') ∧
    (∀ (before after : List (Event κ)) (s : State κ),
      Run step Quiet {} (before ++ .send .baseException :: after) s →
      attempts (before ++ .send .baseException :: after) = attempts before) ∧
    (∀ (events : List (Event κ)) (s : State κ), Run step Quiet {} events s →
      s.thread = some .top → ∀ (now : ℚ) (outcome : κ → Outcome), ∃ during s',
        Run step (fun s event => Quiet s event ∧ Follows outcome s event) s
          (.startPass now :: during) s' ∧
        (∀ time, .startPass time ∉ during) ∧
        (s'.thread = some .top ∨ s'.thread = some .exited)) ∧
    (∀ (pairs : List κ) (ticks : List (ℚ × (κ → Outcome))), pairs ≠ [] →
      ∃ (s s' : State κ) (events : List (Event κ)),
        Run step Quiet {} (pairs.map .addTarget) s ∧ Plays ticks s events s' ∧
        attempts (pairs.map .addTarget ++ events) = planned pairs.eraseDups ticks []) := by
  refine ⟨fun _ _ _ _ => attempts_pass, fun _ _ => attempts_of_calm,
    fun _ _ _ h => (attempts_after_baseException h).2, ?_, ?_⟩
  · intro events s h htop now outcome
    obtain ⟨during, s', htick, hover⟩ := exists_tick h htop now outcome
    exact ⟨during, s', htick.run, htick.once, hover⟩
  · intro pairs ticks hpairs
    obtain ⟨s, hrun, htop⟩ := exists_registered pairs hpairs
    obtain ⟨events, s', hplays⟩ := exists_plays ticks hrun htop
    refine ⟨s, s', events, hrun, hplays, ?_⟩
    rw [attempts_plays hplays hrun, registered_map_addTarget, attempts_map_addTarget]

/-- Five ticks of two pairs: an `Exception` of the first pair at the second tick, nothing that
is due at the third, a `BaseException` of the second pair at the fourth, and nothing after
it. -/
theorem schedule_twoPairs :
    ∃ (s s' : State ℕ) (events : List (Event ℕ)),
      Run step Quiet {} ([1, 2].map .addTarget) s ∧
      Plays [(100, fun _ => .ok), (105, fun pair => if pair = 1 then .exception else .ok),
        (106, fun _ => .ok), (110, fun pair => if pair = 2 then .baseException else .ok),
        (115, fun _ => .ok)] s events s' ∧
      attempts ([1, 2].map .addTarget ++ events) =
        [(1, 100), (2, 100), (1, 105), (2, 105), (1, 110), (2, 110)] := by
  obtain ⟨s, s', events, hrun, hplays, hattempts⟩ := schedule.2.2.2.2 [1, 2]
    [(100, fun _ => .ok), (105, fun pair => if pair = 1 then .exception else .ok),
      (106, fun _ => .ok), (110, fun pair => if pair = 2 then .baseException else .ok),
      (115, fun _ => .ok)] (by simp)
  exact ⟨s, s', events, hrun, hplays, hattempts.trans (by decide +kernel)⟩

end SqlalchemyCollectd.Worker
