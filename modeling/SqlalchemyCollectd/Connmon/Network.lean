import SqlalchemyCollectd.Connmon.Forwarder
import SqlalchemyCollectd.Connmon.Monitor

/-!
# SqlalchemyCollectd.Connmon.Network

The connmon plugin and the monitors that have connected to it, with the network between.

A monitor says `HELO` every few seconds; the plugin broadcasts to those it has heard of.
The network may lose datagrams, hand them over in any order and more than once, but it
makes none up. Whatever it does, a monitor shows nothing that collectd has not written,
and nothing of what was broadcast before it subscribed (`monitors_see`).
-/

namespace SqlalchemyCollectd

open Struct Transition Service

/-- A monitor that has connected: `UDPClientReceiver` and the tasks of its `Stat`. -/
structure Subscriber where
  /-- `self.transport is not None`. -/
  transport : Bool := true
  service : Mailbox.State Stat Item := { state := {} }

/-- The plugin, the monitors by their addresses, and who has sent a `HELO`. What the
plugin has sent is in its listener. -/
structure Network (α : Type) where
  plugin : ConnmonPlugin α
  subscribers : α → Subscriber := fun _ => {}
  hellos : List α := []

namespace Network

variable {α : Type}

inductive Event (α : Type)
  | plugin (event : ConnmonPlugin.Event α)
  /-- A round of `_send_helo`. -/
  | helo (c : α)
  | deliver (c : α) (data : Bytes)
  /-- `connection_lost` of a monitor. -/
  | lost (c : α)
  /-- A task of a monitor goes on. -/
  | monitor (c : α) (event : Mailbox.Event Item ℚ)

/-- The datagrams that the plugin has broadcast, with their addressees. -/
def sent (s : ConnmonPlugin α) : List (α × Bytes) :=
  s.worker.state.listener.elim [] ServerSender.sent

variable [DecidableEq α]

/-- A step of the event loop of a monitor. -/
def onService (c : α) (event : Mailbox.Event Item ℚ) (s : Network α) : Option (Network α) :=
  if (s.subscribers c).service.status = .stuck then none
  else (Mailbox.step Stat.serve Stat.age (s.subscribers c).service event).map fun service =>
    { s with subscribers := Function.update s.subscribers c { s.subscribers c with service } }

/-- The network makes no `HELO` up. -/
def Heard (s : Network α) : ConnmonPlugin.Event α → Prop
  | .act (.datagram data addr) => data = ServerSender.helo → addr ∈ s.hellos
  | .act (.tick _) | .act (.reach _) | .act .listenerLost | .act .monitorLost => True
  | .write _ | .init | .take | .interrupt => True

instance (s : Network α) (event : ConnmonPlugin.Event α) : Decidable (s.Heard event) := by
  unfold Heard
  split <;> infer_instance

def step (s : Network α) : Event α → Option (Network α)
  | .plugin event =>
      if s.Heard event then
        (ConnmonPlugin.step s.plugin event).map fun plugin => { s with plugin }
      else none
  | .helo c =>
      if (s.subscribers c).transport ∧ (s.subscribers c).service.status ≠ .stuck then
        some { s with hellos := c :: s.hellos }
      else none
  | .deliver c data =>
      if (s.subscribers c).transport ∧ (c, data) ∈ sent s.plugin then
        s.onService c (.arrive (some data))
      else none
  | .lost c =>
      if (s.subscribers c).transport then
        (s.onService c (.arrive none)).map fun s =>
          { s with subscribers :=
              Function.update s.subscribers c { s.subscribers c with transport := false } }
      else none
  | .monitor _ (.arrive _) => none
  | .monitor c event => s.onService c event

/-- The network when the plugin has been started. -/
def start (listen monitor : Bool) : Network α := { plugin := .start listen monitor }

omit [DecidableEq α] in
/-- What an event is for the plugin. -/
def Event.plugin? : Event α → Option (ConnmonPlugin.Event α)
  | .plugin event => some event
  | .helo _ | .deliver _ _ | .lost _ | .monitor _ _ => none

/-- What an event is for a monitor. -/
def Event.monitor? (c : α) : Event α → Option (Mailbox.Event Item ℚ)
  | .deliver c' data => if c' = c then some (.arrive (some data)) else none
  | .lost c' => if c' = c then some (.arrive none) else none
  | .monitor c' event => if c' = c then some event else none
  | .plugin _ | .helo _ => none

/-! ### One step -/

theorem onService_eq_some {c : α} {event : Mailbox.Event Item ℚ} {s s' : Network α}
    (h : s.onService c event = some s') : (s.subscribers c).service.status ≠ .stuck ∧
      ∃ service, Mailbox.step Stat.serve Stat.age (s.subscribers c).service event = some service ∧
        s' = { s with
          subscribers := Function.update s.subscribers c { s.subscribers c with service } } := by
  unfold onService at h
  split at h
  · cases h
  · rename_i hstuck
    obtain ⟨service, hservice, rfl⟩ := Option.map_eq_some_iff.mp h
    exact ⟨hstuck, service, hservice, rfl⟩

/-- A step of the monitor at `c`, for which the event is `e`. -/
structure Serves (s : Network α) (event : Event α) (s' : Network α) (c : α)
    (e : Mailbox.Event Item ℚ) (subscriber : Subscriber) : Prop where
  monitor : ∀ c', event.monitor? c' = if c' = c then some e else none
  plugin : event.plugin? = none
  free : (s.subscribers c).service.status ≠ .stuck
  step : Mailbox.step Stat.serve Stat.age (s.subscribers c).service e = some subscriber.service
  sent : ∀ data, e = .arrive (some data) → (c, data) ∈ Network.sent s.plugin
  eq : s' = { s with subscribers := Function.update s.subscribers c subscriber }

/-- What a step of the network is. -/
theorem step_cases {s s' : Network α} {event : Event α} (h : step s event = some s') :
    (∃ e plugin, event = .plugin e ∧ s.Heard e ∧ ConnmonPlugin.step s.plugin e = some plugin ∧
      s' = { s with plugin }) ∨
    (∃ c, event = .helo c ∧ s' = { s with hellos := c :: s.hellos }) ∨
    ∃ c e subscriber, Serves s event s' c e subscriber := by
  cases event with
  | plugin e =>
      rw [step] at h
      split at h
      · obtain ⟨plugin, hplugin, rfl⟩ := Option.map_eq_some_iff.mp h
        exact Or.inl ⟨e, plugin, rfl, ‹_›, hplugin, rfl⟩
      · cases h
  | helo c =>
      rw [step] at h
      split at h
      · exact Or.inr (Or.inl ⟨c, rfl, (Option.some.inj h).symm⟩)
      · cases h
  | deliver c data =>
      rw [step] at h
      split at h
      · rename_i hguard
        obtain ⟨hfree, service, hservice, rfl⟩ := onService_eq_some h
        refine Or.inr (Or.inr ⟨c, .arrive (some data), _, ?_, rfl, hfree, hservice, ?_, rfl⟩)
        · intro c'
          simp only [Event.monitor?, eq_comm]
        · intro data' heq
          obtain rfl : data = data' := by simpa using heq
          exact hguard.2
      · cases h
  | lost c =>
      rw [step] at h
      split at h
      · obtain ⟨mid, hmid, rfl⟩ := Option.map_eq_some_iff.mp h
        obtain ⟨hfree, service, hservice, rfl⟩ := onService_eq_some hmid
        refine Or.inr (Or.inr ⟨c, .arrive none, ⟨false, service⟩, ?_, rfl, hfree, hservice, ?_, ?_⟩)
        · intro c'
          simp only [Event.monitor?, eq_comm]
        · simp
        · simp
      · cases h
  | monitor c e =>
      have hinner : s.onService c e = some s' ∧ ∀ item, e ≠ .arrive item := by
        cases e with
        | arrive item => cases h
        | take | act _ | interrupt => exact ⟨h, by simp⟩
      obtain ⟨hround, harrive⟩ := hinner
      obtain ⟨hfree, service, hservice, rfl⟩ := onService_eq_some hround
      refine Or.inr (Or.inr ⟨c, e, _, ?_, rfl, hfree, hservice, ?_, rfl⟩)
      · intro c'
        simp only [Event.monitor?, eq_comm]
      · exact fun data heq => absurd heq (harrive _)

omit [DecidableEq α] in
/-- A connection that has only sent more. -/
theorem sent_subset_of_listener {s s' : ConnmonPlugin α} {g : ServerSender α → ServerSender α}
    (h : s'.worker.state.listener = s.worker.state.listener.map g)
    (hg : ∀ listener, listener.sent ⊆ (g listener).sent) : sent s ⊆ sent s' := by
  unfold sent
  rw [h]
  cases s.worker.state.listener with
  | none => exact List.Subset.refl _
  | some listener => exact hg listener

/-- What was broadcast stays broadcast. -/
theorem sent_subset_step {s s' : ConnmonPlugin α} {event : ConnmonPlugin.Event α}
    (h : ConnmonPlugin.step s event = some s') : sent s ⊆ sent s' := by
  have hsame : s'.worker.state = s.worker.state → sent s ⊆ sent s' := by
    intro hstate
    unfold sent
    rw [hstate]
    exact List.Subset.refl _
  cases event with
  | write cd =>
      obtain rfl := Option.some.inj h
      rw [ConnmonPlugin.write_eq] at hsame ⊢
      exact hsame rfl
  | init =>
      simp only [ConnmonPlugin.step] at h
      split at h
      · cases h
      · cases h
        exact hsame rfl
  | take =>
      simp only [ConnmonPlugin.step] at h
      split at h
      · obtain ⟨worker, hworker, rfl⟩ := ConnmonPlugin.onWorker_eq_some h
        obtain ⟨v, -, -, hstate, -⟩ := Mailbox.step_take hworker
        obtain ⟨monitor, hforward⟩ := Forwarder.forward_listener s.worker.state v
        rw [hforward, Option.getD_some] at hstate
        refine sent_subset_of_listener (congrArg Forwarder.listener hstate) fun listener => ?_
        cases Forwarder.packed? v with
        | none => exact List.Subset.refl _
        | some message => exact listener.sent_subset_step (.send message _)
      · cases h
  | act action =>
      obtain ⟨worker, hworker, rfl⟩ := ConnmonPlugin.onWorker_eq_some h
      cases hworker
      cases action with
      | datagram data addr =>
          exact sent_subset_of_listener rfl fun listener =>
            listener.sent_subset_step (.datagram data addr s.worker.state.clock)
      | listenerLost => exact sent_subset_of_listener rfl fun listener => listener.sent_subset_step .lost
      | tick now => exact List.Subset.refl _
      | reach reachable => exact List.Subset.refl _
      | monitorLost => exact List.Subset.refl _
  | interrupt =>
      simp only [ConnmonPlugin.step] at h
      split at h
      · obtain ⟨worker, hworker, rfl⟩ := ConnmonPlugin.onWorker_eq_some h
        simp only [Mailbox.step] at hworker
        split at hworker
        · cases hworker
          exact hsame rfl
        · cases hworker
      · cases h

/-! ### Runs -/

/-- What holds of a network after a run. -/
structure Sound (listen monitor : Bool) (events : List (Event α)) (s : Network α) : Prop where
  plugin : ConnmonPlugin.Forwards listen monitor (events.filterMap Event.plugin?) s.plugin
  monitors : ∀ c, Stat.Monitors (events.filterMap (Event.monitor? c)) (s.subscribers c).service
  delivered : ∀ c data, some data ∈ Mailbox.arrivals (events.filterMap (Event.monitor? c)) →
    (c, data) ∈ sent s.plugin
  hellos : ∀ c ∈ s.hellos, .helo c ∈ events
  heard : ∀ c, (ServerSender.helo, c) ∈ ((events.filterMap Event.plugin?).filterMap
    ConnmonPlugin.Event.action?).filterMap Forwarder.Action.datagram? → c ∈ s.hellos

omit [DecidableEq α] in
theorem filterMap_snoc_none {β : Type} {f : Event α → Option β} {event : Event α}
    (h : f event = none) (events : List (Event α)) :
    (events ++ [event]).filterMap f = events.filterMap f := by
  rw [List.filterMap_append, List.filterMap_cons, h]
  exact List.append_nil _

omit [DecidableEq α] in
theorem filterMap_snoc_some {β : Type} {f : Event α → Option β} {event : Event α} {b : β}
    (h : f event = some b) (events : List (Event α)) :
    (events ++ [event]).filterMap f = events.filterMap f ++ [b] := by
  rw [List.filterMap_append, List.filterMap_cons, h]
  rfl

theorem Sound.step {listen monitor : Bool} {events : List (Event α)} {s s' : Network α}
    {event : Event α} (h : Sound listen monitor events s) (hstep : step s event = some s') :
    Sound listen monitor (events ++ [event]) s' := by
  have hhellos : ∀ c ∈ s.hellos, .helo c ∈ events ++ [event] :=
    fun c hc => List.mem_append_left _ (h.hellos c hc)
  obtain ⟨e, plugin, rfl, hheard, hplugin, rfl⟩ | ⟨c, rfl, rfl⟩ | ⟨c, e, subscriber, hserves⟩ :=
    step_cases hstep
  -- the plugin goes on, and what it hears has been said
  · refine ⟨?_, ?_, ?_, hhellos, ?_⟩
    · rw [filterMap_snoc_some (f := Event.plugin?) rfl]
      exact h.plugin.snoc trivial hplugin
    · intro c
      rw [filterMap_snoc_none rfl]
      exact h.monitors c
    · intro c data hdata
      rw [filterMap_snoc_none rfl] at hdata
      exact sent_subset_step hplugin (h.delivered c data hdata)
    · intro c hc
      rw [filterMap_snoc_some (b := e) rfl, List.filterMap_append, List.filterMap_append,
        List.mem_append] at hc
      rcases hc with hc | hc
      · exact h.heard c hc
      · cases e with
        | act action =>
            cases action with
            | datagram data addr =>
                obtain ⟨rfl, rfl⟩ : ServerSender.helo = data ∧ c = addr := by
                  simpa [ConnmonPlugin.Event.action?, Forwarder.Action.datagram?] using hc
                exact hheard rfl
            | tick | reach | listenerLost | monitorLost => cases hc
        | write | init | take | interrupt => cases hc
  -- a monitor says `HELO`
  · refine ⟨?_, ?_, ?_, ?_, ?_⟩
    · rw [filterMap_snoc_none rfl]
      exact h.plugin
    · intro c'
      rw [filterMap_snoc_none rfl]
      exact h.monitors c'
    · intro c' data hdata
      rw [filterMap_snoc_none rfl] at hdata
      exact h.delivered c' data hdata
    · intro c' hc'
      rcases List.mem_cons.mp hc' with rfl | hc'
      · exact List.mem_append_right _ (List.mem_singleton_self _)
      · exact hhellos c' hc'
    · intro c' hc'
      rw [filterMap_snoc_none rfl] at hc'
      exact List.mem_cons_of_mem _ (h.heard c' hc')
  -- a monitor goes on, and the others stay as they are
  · obtain rfl := hserves.eq
    refine ⟨?_, ?_, ?_, hhellos, ?_⟩
    · rw [filterMap_snoc_none hserves.plugin]
      exact h.plugin
    · intro c'
      dsimp only
      by_cases hc : c' = c
      · subst hc
        rw [filterMap_snoc_some ((hserves.monitor c').trans (if_pos rfl)), Function.update_self]
        exact (h.monitors c').snoc hserves.free hserves.step
      · rw [filterMap_snoc_none ((hserves.monitor c').trans (if_neg hc)),
          Function.update_of_ne hc]
        exact h.monitors c'
    · intro c' data hdata
      by_cases hc : c' = c
      · subst hc
        rw [filterMap_snoc_some ((hserves.monitor c').trans (if_pos rfl)), Mailbox.arrivals,
          List.filterMap_append, List.mem_append] at hdata
        rcases hdata with hdata | hdata
        · exact h.delivered c' data hdata
        · cases e with
          | arrive item =>
              obtain rfl : some data = item := by simpa using hdata
              exact hserves.sent data rfl
          | take | act | interrupt => cases hdata
      · rw [filterMap_snoc_none ((hserves.monitor c').trans (if_neg hc))] at hdata
        exact h.delivered c' data hdata
    · rw [filterMap_snoc_none hserves.plugin]
      exact h.heard

/-- The network after a run. -/
abbrev Connects (listen monitor : Bool) (events : List (Event α)) (s : Network α) : Prop :=
  Run step (fun _ _ => True) (start listen monitor) events s

theorem sound_run {listen monitor : Bool} {events : List (Event α)} {s : Network α}
    (h : Connects listen monitor events s) : Sound listen monitor events s := by
  refine h.invariant (P := Sound listen monitor) ?_ ?_
  · exact ⟨.nil, fun _ => .nil, by simp [Mailbox.arrivals], by simp [start], by simp⟩
  · intro events s event s' hsound _ hstep
    exact hsound.step hstep

/-- Where a datagram comes from: collectd wrote a value, which was broadcast while the
addressee was subscribed. -/
structure Source (events : List (Event α)) (trace : List (ServerSender.Event α)) (c : α)
    (cd : Values Number) (bytes : Bytes) : Prop where
  write : .plugin (.write cd) ∈ events
  plugin : cd.plugin = some collectdPluginName
  packed : packValues senderTypes (Values.fromCollectdValues cd) = .ok bytes
  broadcast : ∃ before now after time, trace = before ++ .send bytes now :: after ∧
    .datagram ServerSender.helo c time ∈ before ∧ now - time ≤ 30
  helo : .helo c ∈ events

/-- The connection of the listener, and where everything that it sent comes from. -/
theorem exists_trace {listen monitor : Bool} {events : List (Event α)} {s : Network α}
    (h : Sound listen monitor events s) :
    ∃ trace : List (ServerSender.Event α),
      s.plugin.worker.state.listener = (if listen then some (ServerSender.run trace) else none) ∧
      ∀ c bytes, (c, bytes) ∈ sent s.plugin → ∃ cd, Source events trace c cd bytes := by
  obtain ⟨inner, hinner⟩ := ConnmonPlugin.exists_follows h.plugin
  obtain ⟨log, hlog⟩ := Mailbox.exists_log hinner.run
  have hlistener : s.plugin.worker.state.listener =
      if listen then some (ServerSender.run (Forwarder.trace 0 log)) else none := by
    rw [hlog.state, Forwarder.foldl_effect_listener]
    cases listen <;> rfl
  refine ⟨Forwarder.trace 0 log, hlistener, ?_⟩
  intro c bytes hsent
  unfold sent at hsent
  rw [hlistener] at hsent
  cases listen with
  | false => cases hsent
  | true =>
      obtain ⟨before, now, after, time, hsplit, hhelo, hage⟩ := ServerSender.mem_sent_run hsent
      -- what was sent was packed, what was packed was taken, and what was taken was written
      have hpacked : bytes ∈ (Mailbox.items log).filterMap Forwarder.packed? := by
        rw [← Forwarder.messages_trace 0, hsplit]
        simp [ServerSender.Event.message?]
      obtain ⟨v, hv, hpacked⟩ := List.mem_filterMap.mp hpacked
      have hhanded : v ∈ ConnmonPlugin.handed false (events.filterMap Event.plugin?) := by
        rw [← hinner.arrivals, hlog.arrivals]
        exact List.mem_append_left _ hv
      obtain ⟨cd, hwrite, hplugin, heq⟩ := ConnmonPlugin.exists_write_of_mem_handed hhanded
      rw [heq] at hpacked
      refine ⟨cd, ?_, hplugin, ?_, ⟨before, now, after, time, hsplit, hhelo, hage⟩, ?_⟩
      · obtain ⟨event, hevent, heq⟩ := List.mem_filterMap.mp hwrite
        cases event with
        | plugin e =>
            cases heq
            exact hevent
        | helo | deliver | lost | monitor => cases heq
      · unfold Forwarder.packed? at hpacked
        cases hpack : packValues senderTypes (Values.fromCollectdValues cd) with
        | error e =>
            rw [hpack] at hpacked
            cases hpacked
        | ok bytes' =>
            rw [hpack] at hpacked
            cases hpacked
            rfl
      · refine h.hellos c (h.heard c ?_)
        rw [← hinner.actions, hlog.actions, ← Forwarder.datagrams_trace 0, hsplit,
          List.mem_filterMap]
        exact ⟨_, List.mem_append_left _ hhelo, rfl⟩

/-- **What monitors see.** Whatever the network loses, delays, reorders and duplicates, and
however the tasks on all sides alternate: no datagram keeps a monitor for ever, and what a
monitor shows is the result of messages each of which is a value of SQLAlchemy that
collectd has written, relayed, and broadcast within 30 seconds of a `HELO` that this
monitor has sent. -/
theorem monitors_see {listen monitor : Bool} {events : List (Event α)} {s : Network α}
    (h : Connects listen monitor events s) :
    ∃ trace : List (ServerSender.Event α),
      s.plugin.worker.state.listener = (if listen then some (ServerSender.run trace) else none) ∧
      ∀ c, (s.subscribers c).service.status ≠ .stuck ∧
        ∃ history : List Stat.Event,
          (s.subscribers c).service.state = Stat.run history ∧
          ∀ m, .message m ∈ history → ∃ cd bytes, Source events trace c cd bytes ∧
            relay (Values.fromCollectdValues cd) = some (.ok (some m)) := by
  have hsound := sound_run h
  obtain ⟨trace, hlistener, hsource⟩ := exists_trace hsound
  refine ⟨trace, hlistener, fun c => ?_⟩
  obtain ⟨served, history, hfollows⟩ := Stat.exists_follows (hsound.monitors c)
  have hserved : ∀ buf, some buf ∈ served → ∃ cd, Source events trace c cd buf := by
    intro buf hbuf
    refine hsource c buf (hsound.delivered c buf ?_)
    rw [hfollows.arrivals]
    exact List.mem_append_left _ hbuf
  refine ⟨?_, history, hfollows.state, ?_⟩
  -- the packer makes no datagram that the unpacker is caught in
  · rw [ne_eq, hfollows.stuck]
    intro ⟨buf, hbuf, hstalls⟩
    obtain ⟨cd, hcd⟩ := hserved buf hbuf
    exact not_stalls_of_packValues hcd.packed hstalls
  · intro m hm
    obtain ⟨item, hitem, hdecoded⟩ := hfollows.exists_served hm
    obtain ⟨buf, rfl, hunpack⟩ := messageOf_eq_some_iff.mp hdecoded
    obtain ⟨cd, hcd⟩ := hserved buf hitem
    exact ⟨cd, buf, hcd, by rw [relay, hcd.packed]; exact hunpack⟩

/-- The number of connects of a program. -/
def connects : Values Number where
  type := "derive"
  typeInstance := "connects"
  plugin := "sqlalchemy"
  pluginInstance := "web"
  host := "h1"
  time := some 5
  values := [.int 2]

/-- It reaches a monitor. -/
def oneMonitor : List (Event ℕ) :=
  [.helo 7, .plugin .init, .plugin (.act (.tick 5)),
    .plugin (.act (.datagram ServerSender.helo 7)), .plugin (.write connects), .plugin .take,
    .deliver 7 ((Forwarder.packed? connects).getD []), .monitor 7 .take, .monitor 7 (.act 6)]

theorem monitors_see_oneMonitor :
    ∃ (s : Network ℕ) (trace : List (ServerSender.Event ℕ)),
      (s.subscribers 7).service.state.hostprogs.keys = [("h1", "web")] ∧
      s.plugin.worker.state.listener = (if true then some (ServerSender.run trace) else none) ∧
      ∀ c, (s.subscribers c).service.status ≠ .stuck ∧
        ∃ history : List Stat.Event,
          (s.subscribers c).service.state = Stat.run history ∧
          ∀ m, .message m ∈ history → ∃ cd bytes, Source oneMonitor trace c cd bytes ∧
            relay (Values.fromCollectdValues cd) = some (.ok (some m)) := by
  have hshown : (oneMonitor.foldlM (guarded step fun _ _ => True) (start true false)).map
      (fun s => (s.subscribers 7).service.state.hostprogs.keys) = some [("h1", "web")] := by
    decide +kernel
  obtain ⟨s, hs, hkeys⟩ := Option.map_eq_some_iff.mp hshown
  obtain ⟨trace, hsee⟩ := monitors_see (Run.of_exec hs)
  exact ⟨s, trace, hkeys, hsee⟩

end Network

end SqlalchemyCollectd
