import SqlalchemyCollectd.Lib.Mailbox
import SqlalchemyCollectd.Networking.Subscribers
import SqlalchemyCollectd.Connmon.Relay

/-!
# SqlalchemyCollectd.Connmon.Forwarder

The connmon plugin as collectd runs it.

collectd hands every value to `write`; those of SQLAlchemy are put into the queue of a
worker, which packs them and sends them out: to all monitors that have subscribed, where
the plugin listens for such, and to one that is configured. What cannot be packed is
logged, and so is a connection that cannot be made.

The listener goes first, so it is not kept from a message by the other sender. Its
connection is that of a run in which the broadcasts are the values that can be packed,
in the order in which collectd has written them (`forwards_refines`).
-/

namespace SqlalchemyCollectd

open Struct Transition

/-- What `AsyncNetworkSender.send_async` raises. -/
inductive SendError
  | python (e : PyError)
  /-- An `OSError` of `create_datagram_endpoint`. -/
  | endpoint
  deriving DecidableEq

/-- `UDPClientSender`, with what it has handed to its transport so far. -/
structure ClientSender where
  /-- `self.protocol`: whether its transport is still there. -/
  protocol : Option Bool := none
  sent : List Bytes := []

namespace ClientSender

/-- `_check_connect`, where `reachable` says whether an endpoint can be created. -/
def checkConnect (reachable : Bool) : EStateM SendError ClientSender Unit := do
  if (← get).protocol = none then
    if reachable then modify fun s => { s with protocol := some true } else throw .endpoint

/-- `send` of the protocol. -/
def send (message : Bytes) (s : ClientSender) : ClientSender :=
  if s.protocol = some true then { s with sent := s.sent ++ [message] } else s

/-- `send_async`. -/
def sendAsync (reachable : Bool) (message : Bytes) : EStateM SendError ClientSender Unit := do
  checkConnect reachable
  modify (send message)

/-- `connection_lost` of the protocol. -/
def connectionLost (s : ClientSender) : ClientSender :=
  { s with protocol := s.protocol.map fun _ => false }

end ClientSender

/-- The senders of the worker: those of `listen` and `monitor` in the configuration. The
other fields are what the environment answers when it is asked. -/
structure Forwarder (α : Type) where
  listener : Option (ServerSender α) := none
  monitor : Option ClientSender := none
  /-- `time.time()`. -/
  clock : ℚ := 0
  reachable : Bool := true

namespace Forwarder

variable {α : Type} [DecidableEq α]

/-- `AsyncNetworkSender.send_async` with a `UDPServerSender`. -/
def sendToListener (v : Values Number) : EStateM SendError (Forwarder α) Unit := fun f =>
  match f.listener with
  | none => .ok () f
  | some listener =>
      match packValues senderTypes v with
      | .error e => .error (.python e) f
      | .ok message =>
          match ServerSender.sendToAll f.clock message listener with
          | .ok _ listener => .ok () { f with listener }
          | .error e listener => .error (.python e) { f with listener }

omit [DecidableEq α] in
/-- `AsyncNetworkSender.send_async` with a `UDPClientSender`. -/
def sendToMonitor (v : Values Number) : EStateM SendError (Forwarder α) Unit := fun f =>
  match f.monitor with
  | none => .ok () f
  | some monitor =>
      match packValues senderTypes v with
      | .error e => .error (.python e) f
      | .ok message =>
          match ClientSender.sendAsync f.reachable message monitor with
          | .ok _ monitor => .ok () { f with monitor }
          | .error e monitor => .error e { f with monitor }

/-- The loop over the senders in `_run_service_awaitable`. -/
def sendToSenders (v : Values Number) : EStateM SendError (Forwarder α) Unit := do
  sendToListener v
  sendToMonitor v

/-- One round of the worker. An exception is logged. -/
def forward (f : Forwarder α) (v : Values Number) : Option (Forwarder α) :=
  match sendToSenders v f with
  | .ok _ f => some f
  | .error _ f => some f

/-- What happens around the worker. -/
inductive Action (α : Type)
  | tick (now : ℚ)
  | reach (reachable : Bool)
  | datagram (data : Bytes) (addr : α)
  | listenerLost
  | monitorLost

def act (f : Forwarder α) : Action α → Forwarder α
  | .tick now => { f with clock := now }
  | .reach reachable => { f with reachable }
  | .datagram data addr =>
      { f with listener := f.listener.map (ServerSender.datagramReceived f.clock data addr) }
  | .listenerLost => { f with listener := f.listener.map ServerSender.connectionLost }
  | .monitorLost => { f with monitor := f.monitor.map ClientSender.connectionLost }

/-! ### One value -/

/-- The datagram of a value, if it can be packed. -/
def packed? (v : Values Number) : Option Bytes := (packValues senderTypes v).toOption

omit [DecidableEq α] in
/-- What the second sender does to the first. -/
theorem sendToMonitor_frame (v : Values Number) (f : Forwarder α) :
    ∃ monitor, sendToMonitor v f = .ok () { f with monitor } ∨
      ∃ e, sendToMonitor v f = .error e { f with monitor } := by
  obtain ⟨listener, monitor, clock, reachable⟩ := f
  cases monitor with
  | none => exact ⟨none, Or.inl rfl⟩
  | some monitor =>
      unfold sendToMonitor
      cases packValues senderTypes v with
      | error e => exact ⟨some monitor, Or.inr ⟨_, rfl⟩⟩
      | ok message =>
          dsimp only
          cases ClientSender.sendAsync reachable message monitor with
          | ok _ monitor' => exact ⟨some monitor', Or.inl rfl⟩
          | error e monitor' => exact ⟨some monitor', Or.inr ⟨e, rfl⟩⟩

/-- **What a round of the worker does to the listener.** -/
theorem forward_listener (f : Forwarder α) (v : Values Number) :
    ∃ monitor, forward f v = some { f with
      monitor
      listener := f.listener.map fun listener =>
        (packed? v).elim listener fun message => listener.step (.send message f.clock) } := by
  have hsecond : ∀ mid : Forwarder α, sendToListener v f = .ok () mid →
      ∃ monitor, forward f v = some { mid with monitor } := by
    intro mid hmid
    obtain ⟨monitor, hframe⟩ := sendToMonitor_frame v mid
    refine ⟨monitor, ?_⟩
    have hloop : sendToSenders v f = sendToMonitor v mid := by
      show EStateM.bind (sendToListener v) (fun _ => sendToMonitor v) f = _
      rw [EStateM.bind, hmid]
    rw [forward, hloop]
    rcases hframe with hok | ⟨e, herror⟩
    · rw [hok]
    · rw [herror]
  have hlogged : ∀ e, sendToListener v f = .error e f → forward f v = some f := by
    intro e hfirst
    have hloop : sendToSenders v f = .error e f := by
      show EStateM.bind (sendToListener v) (fun _ => sendToMonitor v) f = _
      rw [EStateM.bind, hfirst]
    rw [forward, hloop]
  obtain ⟨listener, monitor, clock, reachable⟩ := f
  cases listener with
  | none => exact hsecond _ rfl
  | some listener =>
      cases hpack : packValues senderTypes v with
      | error e =>
          refine ⟨monitor, (hlogged (.python e) (by simp only [sendToListener, hpack])).trans ?_⟩
          simp [packed?, hpack, Except.toOption]
      | ok message =>
          obtain ⟨monitor', hforward⟩ :=
            hsecond ⟨some (listener.step (.send message clock)), monitor, clock, reachable⟩ (by
              simp only [sendToListener, hpack, ServerSender.sendToAll_eq,
                ServerSender.step_send])
          exact ⟨monitor', by rw [hforward, packed?, hpack]; rfl⟩

/-! ### The log of the worker -/

/-- The clock after an entry of the log. -/
def clockAfter (now : ℚ) : Values Number ⊕ Action α → ℚ
  | .inr (.tick now) => now
  | .inr (.reach _) | .inr (.datagram _ _) | .inr .listenerLost | .inr .monitorLost => now
  | .inl _ => now

/-- What an entry of the log does to the connection of the listener. -/
def event? (now : ℚ) : Values Number ⊕ Action α → Option (ServerSender.Event α)
  | .inl v => (packed? v).map fun message => .send message now
  | .inr (.datagram data addr) => some (.datagram data addr now)
  | .inr .listenerLost => some .lost
  | .inr (.tick _) | .inr (.reach _) | .inr .monitorLost => none

/-- What a log does to it, from time `now` on. -/
def trace (now : ℚ) : List (Values Number ⊕ Action α) → List (ServerSender.Event α)
  | [] => []
  | entry :: log => (event? now entry).toList ++ trace (clockAfter now entry) log

/-- One entry of the log. -/
theorem effect_listener (f : Forwarder α) (entry : Values Number ⊕ Action α) :
    (Mailbox.effect forward act f entry).clock = clockAfter f.clock entry ∧
      (Mailbox.effect forward act f entry).listener = f.listener.map fun listener =>
        (event? f.clock entry).elim listener listener.step := by
  cases entry with
  | inl v =>
      obtain ⟨monitor, hforward⟩ := forward_listener f v
      rw [Mailbox.effect, hforward, event?]
      exact ⟨rfl, by cases packed? v <;> rfl⟩
  | inr action =>
      cases action with
      | datagram data addr => exact ⟨rfl, rfl⟩
      | listenerLost => exact ⟨rfl, rfl⟩
      | tick now => exact ⟨rfl, by simp [Mailbox.effect, act, event?]⟩
      | reach reachable => exact ⟨rfl, by simp [Mailbox.effect, act, event?]⟩
      | monitorLost => exact ⟨rfl, by simp [Mailbox.effect, act, event?]⟩

/-- A whole log. -/
theorem foldl_effect_listener (log : List (Values Number ⊕ Action α)) (f : Forwarder α) :
    (log.foldl (Mailbox.effect forward act) f).listener =
      f.listener.map fun listener => (trace f.clock log).foldl ServerSender.step listener := by
  induction log generalizing f with
  | nil => simp [trace]
  | cons entry log ih =>
      obtain ⟨hclock, hlistener⟩ := effect_listener f entry
      rw [List.foldl_cons, ih, hclock, hlistener, Option.map_map, trace]
      congr 1
      funext listener
      rw [Function.comp_apply, List.foldl_append]
      cases event? f.clock entry <;> rfl

end Forwarder

namespace ServerSender

variable {α : Type}

/-- The message of a broadcast. -/
def Event.message? : Event α → Option Bytes
  | .send message _ => some message
  | .datagram _ _ _ | .lost => none

/-- A datagram with its sender. -/
def Event.datagram? : Event α → Option (Bytes × α)
  | .datagram data addr _ => some (data, addr)
  | .send _ _ | .lost => none

end ServerSender

namespace Forwarder

variable {α : Type}

/-- A datagram with its sender. -/
def Action.datagram? : Action α → Option (Bytes × α)
  | .datagram data addr => some (data, addr)
  | .tick _ | .reach _ | .listenerLost | .monitorLost => none

/-- The time to which the clock moves. -/
def Action.tick? : Action α → Option ℚ
  | .tick now => some now
  | .datagram _ _ | .reach _ | .listenerLost | .monitorLost => none

/-- The broadcasts of a log are the values that can be packed. -/
theorem messages_trace (now : ℚ) (log : List (Values Number ⊕ Action α)) :
    (trace now log).filterMap ServerSender.Event.message? =
      (Mailbox.items log).filterMap packed? := by
  induction log generalizing now with
  | nil => rfl
  | cons entry log ih =>
      rw [trace, List.filterMap_append, ih]
      cases entry with
      | inl v =>
          rw [event?, Mailbox.items_cons_inl, List.filterMap_cons]
          cases packed? v <;> rfl
      | inr action => cases action <;> rfl

theorem datagrams_trace (now : ℚ) (log : List (Values Number ⊕ Action α)) :
    (trace now log).filterMap ServerSender.Event.datagram? =
      (Mailbox.others log).filterMap Action.datagram? := by
  induction log generalizing now with
  | nil => rfl
  | cons entry log ih =>
      rw [trace, List.filterMap_append, ih]
      cases entry with
      | inl v =>
          rw [event?, Mailbox.others_cons_inl]
          cases packed? v <;> rfl
      | inr action => cases action <;> rfl

/-- Times from `now` on, in their order. -/
def From (now : ℚ) (events : List (ServerSender.Event α)) : Prop :=
  (now :: events.filterMap ServerSender.Event.time?).Pairwise (· ≤ ·)

theorem From.append {now : ℚ} {event : Option (ServerSender.Event α)}
    {events : List (ServerSender.Event α)} (h : From now events)
    (hevent : ∀ e ∈ event, ∀ time ∈ e.time?, time = now) : From now (event.toList ++ events) := by
  cases event with
  | none => exact h
  | some e =>
      unfold From
      rw [Option.toList_some, List.singleton_append, List.filterMap_cons]
      cases htime : e.time? with
      | none => exact h
      | some time =>
          obtain rfl := hevent e rfl time htime
          exact List.pairwise_cons_cons.mpr ⟨le_rfl, h, h⟩

theorem From.mono {now time : ℚ} {events : List (ServerSender.Event α)} (h : From time events)
    (hle : now ≤ time) : From now events := by
  obtain ⟨hlow, hsorted⟩ := List.pairwise_cons.mp h
  exact List.pairwise_cons.mpr ⟨fun t ht => hle.trans (hlow t ht), hsorted⟩

/-- The times of a log are in order if those of the clock are. -/
theorem from_trace {now : ℚ} {log : List (Values Number ⊕ Action α)}
    (h : (now :: (Mailbox.others log).filterMap Action.tick?).Pairwise (· ≤ ·)) :
    From now (trace now log) := by
  induction log generalizing now with
  | nil => exact h
  | cons entry log ih =>
      rw [trace]
      cases entry with
      | inl v =>
          refine (ih h).append fun e he => ?_
          rw [event?, Option.mem_map] at he
          obtain ⟨message, -, rfl⟩ := he
          simp [ServerSender.Event.time?]
      | inr action =>
          cases action with
          | tick time =>
              obtain ⟨hle, -, hrest⟩ := List.pairwise_cons_cons.mp h
              exact (ih hrest).mono hle
          | datagram data addr =>
              refine (ih h).append fun e he => ?_
              cases he
              simp [ServerSender.Event.time?]
          | listenerLost =>
              refine (ih h).append fun e he => ?_
              cases he
              simp [ServerSender.Event.time?]
          | reach reachable => exact ih h
          | monitorLost => exact ih h

end Forwarder

/-! ### The plugin -/

/-- `Values.from_collectd_values`. -/
def Values.fromCollectdValues (cd : Values Number) : Values Number where
  type := cd.type
  typeInstance := cd.typeInstance
  plugin := cd.plugin
  pluginInstance := cd.pluginInstance
  host := cd.host
  time := cd.time
  interval := cd.interval
  values := cd.values

/-- The plugin: `CollectdAsyncSenderQueue`, once it has been started. -/
structure ConnmonPlugin (α : Type) where
  /-- `self.loop is not None`. -/
  looping : Bool := false
  worker : Mailbox.State (Forwarder α) (Values Number)

namespace ConnmonPlugin

open Forwarder

variable {α : Type}

/-- `CollectdAsyncSenderQueue.send`. The loop is closed when the worker has stopped. -/
def send (message : Values Number) (s : ConnmonPlugin α) : ConnmonPlugin α :=
  if s.looping ∧ s.worker.status = .running then
    { s with worker := { s.worker with queue := s.worker.queue ++ [message] } }
  else s

/-- `write`. -/
def write (cd : Values Number) (s : ConnmonPlugin α) : ConnmonPlugin α :=
  if cd.plugin = some collectdPluginName then s.send (Values.fromCollectdValues cd) else s

inductive Event (α : Type)
  /-- collectd has a value. -/
  | write (cd : Values Number)
  /-- `_init_service_awaitable` is done. -/
  | init
  /-- A round of the worker. -/
  | take
  | act (action : Action α)
  /-- A `BaseException` in the worker. -/
  | interrupt

variable [DecidableEq α]

/-- A step of the worker, seen from the plugin. -/
def onWorker (s : ConnmonPlugin α) (event : Mailbox.Event (Values Number) (Action α)) :
    Option (ConnmonPlugin α) :=
  (Mailbox.step forward act s.worker event).map fun worker => { s with worker }

def step (s : ConnmonPlugin α) : Event α → Option (ConnmonPlugin α)
  | .write cd => some (s.write cd)
  | .init => if s.looping then none else some { s with looping := true }
  | .take => if s.looping then s.onWorker .take else none
  | .act action => s.onWorker (.act action)
  | .interrupt => if s.looping then s.onWorker .interrupt else none

/-- The plugin when its worker has been started, with what is configured. -/
def start (listen monitor : Bool) : ConnmonPlugin α where
  worker := {
    state := {
      listener := if listen then some {} else none
      monitor := if monitor then some {} else none } }

omit [DecidableEq α] in
/-- Whether values are handed to the worker after an event, if they were before or not. -/
def handsOn (before : Bool) : Event α → Bool
  | .init => true
  | .interrupt => false
  | .write _ | .take | .act _ => before

omit [DecidableEq α] in
/-- The value that an event hands to the worker. -/
def Event.handed? : Event α → Option (Values Number)
  | .write cd =>
      if cd.plugin = some collectdPluginName then some (Values.fromCollectdValues cd) else none
  | .init | .take | .act _ | .interrupt => none

omit [DecidableEq α] in
/-- The values that a run hands to the worker: those of SQLAlchemy that collectd writes
after the worker has come to its loop and before that is left. -/
def handed (before : Bool) : List (Event α) → List (Values Number)
  | [] => []
  | event :: events =>
      (if before then event.handed?.toList else []) ++ handed (handsOn before event) events

/-- What happens around the worker. -/
def Event.action? : Event α → Option (Action α)
  | .act action => some action
  | .write _ | .init | .take | .interrupt => none

omit [DecidableEq α] in
theorem handed_append (before : Bool) (events : List (Event α)) (event : Event α) :
    handed before (events ++ [event]) = handed before events ++
      if events.foldl handsOn before then event.handed?.toList else [] := by
  induction events generalizing before with
  | nil => exact (List.append_nil _)
  | cons e events ih =>
      rw [List.cons_append, handed, handed, ih, List.foldl_cons, List.append_assoc]

omit [DecidableEq α] in
/-- What is handed to the worker was written. -/
theorem exists_write_of_mem_handed {before : Bool} {events : List (Event α)} {v : Values Number}
    (h : v ∈ handed before events) : ∃ cd, .write cd ∈ events ∧
      cd.plugin = some collectdPluginName ∧ v = Values.fromCollectdValues cd := by
  induction events generalizing before with
  | nil => cases h
  | cons event events ih =>
      rw [handed, List.mem_append] at h
      rcases h with h | h
      · split at h
        · cases event with
          | write cd =>
              rw [Event.handed?] at h
              split at h
              · exact ⟨cd, List.mem_cons_self, ‹_›, List.mem_singleton.mp h⟩
              · cases h
          | init | take | act | interrupt => cases h
        · cases h
      · obtain ⟨cd, hcd, hplugin⟩ := ih h
        exact ⟨cd, List.mem_cons_of_mem _ hcd, hplugin⟩

/-- What holds of a plugin after a run: its worker has gone through a run of its own. -/
structure Follows (s₀ : ConnmonPlugin α) (events : List (Event α)) (s : ConnmonPlugin α)
    (inner : List (Mailbox.Event (Values Number) (Action α))) : Prop where
  run : Run (Mailbox.step forward act) (fun _ _ => True) s₀.worker inner s.worker
  arrivals : Mailbox.arrivals inner = handed false events
  actions : Mailbox.actions inner = events.filterMap Event.action?
  status : s.worker.status ≠ .stuck
  fresh : s.looping = false → s.worker.status = .running
  hands : events.foldl handsOn false = decide (s.looping ∧ s.worker.status = .running)

/-- A round leaves the worker running. -/
theorem status_take {w w' : Mailbox.State (Forwarder α) (Values Number)}
    (h : Mailbox.step forward act w .take = some w') :
    w.status = .running ∧ w'.status = .running := by
  obtain ⟨queue, f, status⟩ := w
  cases status with
  | stuck | stopped => cases h
  | running =>
      cases queue with
      | nil => cases h
      | cons v queue =>
          obtain ⟨monitor, hforward⟩ := forward_listener f v
          simp only [Mailbox.step, hforward] at h
          cases h
          exact ⟨rfl, rfl⟩

theorem onWorker_eq_some {s s' : ConnmonPlugin α}
    {event : Mailbox.Event (Values Number) (Action α)} (h : s.onWorker event = some s') :
    ∃ worker, Mailbox.step forward act s.worker event = some worker ∧ s' = { s with worker } := by
  obtain ⟨worker, hworker, rfl⟩ := Option.map_eq_some_iff.mp h
  exact ⟨worker, hworker, rfl⟩

omit [DecidableEq α] in
/-- What `write` puts into the queue. -/
theorem write_eq (cd : Values Number) (s : ConnmonPlugin α) :
    s.write cd = { s with worker := { s.worker with
      queue := s.worker.queue ++
        if s.looping ∧ s.worker.status = .running then (Event.write cd : Event α).handed?.toList
        else [] } } := by
  unfold write send Event.handed?
  by_cases hplugin : cd.plugin = some collectdPluginName
  · by_cases hopen : s.looping ∧ s.worker.status = .running
    · simp [hplugin, hopen]
    · rw [if_pos hplugin, if_neg hopen, if_neg hopen, List.append_nil]
  · simp [hplugin]

/-- A step of the worker that brings no value. -/
theorem Follows.snoc {s₀ s : ConnmonPlugin α} {events : List (Event α)}
    {inner : List (Mailbox.Event (Values Number) (Action α))} {event : Event α}
    {e : Mailbox.Event (Values Number) (Action α)}
    {worker : Mailbox.State (Forwarder α) (Values Number)} (h : Follows s₀ events s inner)
    (hworker : Mailbox.step forward act s.worker e = some worker)
    (hhanded : event.handed? = none) (harrivals : Mailbox.arrivals [e] = [])
    (hactions : Mailbox.actions [e] = event.action?.toList) (hstatus : worker.status ≠ .stuck)
    (hfresh : s.looping = false → worker.status = .running)
    (hhands : handsOn (decide (s.looping ∧ s.worker.status = .running)) event =
      decide (s.looping ∧ worker.status = .running)) :
    Follows s₀ (events ++ [event]) { s with worker } (inner ++ [e]) := by
  refine ⟨h.run.snoc trivial hworker, ?_, ?_, hstatus, hfresh, ?_⟩
  · have happend : Mailbox.arrivals (inner ++ [e]) = _ := List.filterMap_append
    rw [happend, ← Mailbox.arrivals, ← Mailbox.arrivals, harrivals, handed_append, hhanded,
      h.arrivals]
    simp
  · have happend : Mailbox.actions (inner ++ [e]) = _ := List.filterMap_append
    rw [happend, ← Mailbox.actions, ← Mailbox.actions, hactions, h.actions, List.filterMap_append,
      List.filterMap_cons]
    cases event.action? <;> rfl
  · rw [List.foldl_append, h.hands]
    exact hhands

theorem Follows.step {s₀ s s' : ConnmonPlugin α} {events : List (Event α)}
    {inner : List (Mailbox.Event (Values Number) (Action α))} {event : Event α}
    (h : Follows s₀ events s inner) (hstep : step s event = some s') :
    ∃ inner', Follows s₀ (events ++ [event]) s' inner' := by
  cases event with
  | write cd =>
      obtain rfl := Option.some.inj hstep
      have hvalues := handed_append false events (.write cd)
      have hhands : (events ++ [Event.write cd]).foldl handsOn false = _ := List.foldl_append
      rw [h.hands, ← h.arrivals] at hvalues
      rw [h.hands] at hhands
      rw [write_eq]
      simp only [decide_eq_true_eq] at hvalues
      generalize hput : (if s.looping ∧ s.worker.status = .running then
        (Event.write cd : Event α).handed?.toList else []) = put at hvalues ⊢
      obtain rfl | ⟨v, rfl⟩ : put = [] ∨ ∃ v, put = [v] := by
        rw [← hput]
        split
        · cases (Event.write cd : Event α).handed? with
          | none => exact Or.inl rfl
          | some v => exact Or.inr ⟨v, rfl⟩
        · exact Or.inl rfl
      · rw [List.append_nil] at hvalues ⊢
        refine ⟨inner, h.run, hvalues.symm, ?_, h.status, h.fresh, hhands⟩
        rw [h.actions, List.filterMap_append]
        exact (List.append_nil _).symm
      · refine ⟨inner ++ [.arrive v], h.run.snoc trivial rfl, ?_, ?_, h.status, h.fresh, hhands⟩
        · rw [hvalues]
          exact List.filterMap_append
        · have happend : Mailbox.actions (inner ++ [.arrive v]) = _ := List.filterMap_append
          rw [happend, ← Mailbox.actions, h.actions, List.filterMap_append]
          rfl
  | init =>
      obtain ⟨hidle, rfl⟩ : s.looping = false ∧ s' = { s with looping := true } := by
        simp only [ConnmonPlugin.step] at hstep
        split at hstep
        · cases hstep
        · exact ⟨by simp_all, (Option.some.inj hstep).symm⟩
      refine ⟨inner, h.run, ?_, ?_, h.status, by simp, ?_⟩
      · rw [h.arrivals, handed_append, Event.handed?]
        simp
      · rw [h.actions, List.filterMap_append]
        exact (List.append_nil _).symm
      · rw [List.foldl_append, h.fresh hidle]
        rfl
  | take =>
      obtain ⟨hlooping, hworker⟩ : s.looping = true ∧ s.onWorker .take = some s' := by
        simp only [ConnmonPlugin.step] at hstep
        split at hstep
        · exact ⟨‹_›, hstep⟩
        · cases hstep
      obtain ⟨worker, hround, rfl⟩ := onWorker_eq_some hworker
      obtain ⟨hbefore, hafter⟩ := status_take hround
      refine ⟨_, h.snoc hround rfl rfl rfl (by simp [hafter]) (fun _ => hafter) ?_⟩
      rw [hbefore, hafter]
      rfl
  | act action =>
      obtain ⟨worker, hworker, rfl⟩ := onWorker_eq_some hstep
      cases hworker
      exact ⟨_, h.snoc (e := .act action) rfl rfl rfl rfl h.status h.fresh rfl⟩
  | interrupt =>
      obtain ⟨hlooping, hworker⟩ : s.looping = true ∧ s.onWorker .interrupt = some s' := by
        simp only [ConnmonPlugin.step] at hstep
        split at hstep
        · exact ⟨‹_›, hstep⟩
        · cases hstep
      obtain ⟨worker, hround, rfl⟩ := onWorker_eq_some hworker
      have hstopped : worker.status = .stopped := by
        simp only [Mailbox.step] at hround
        split at hround
        · cases hround
          rfl
        · cases hround
      refine ⟨_, h.snoc hround rfl rfl rfl (by simp [hstopped]) (by simp [hlooping]) ?_⟩
      simp [handsOn, hstopped]

/-- The plugin after a run. -/
abbrev Forwards (listen monitor : Bool) (events : List (Event α)) (s : ConnmonPlugin α) : Prop :=
  Run step (fun _ _ => True) (start listen monitor) events s

theorem exists_follows {listen monitor : Bool} {events : List (Event α)} {s : ConnmonPlugin α}
    (h : Forwards listen monitor events s) :
    ∃ inner, Follows (start listen monitor) events s inner := by
  refine h.invariant (P := fun events s => ∃ inner, Follows (start listen monitor) events s inner)
    ?_ ?_
  · exact ⟨[], .nil, rfl, rfl, by simp [start], fun _ => rfl, rfl⟩
  · intro events s event s' ⟨inner, hinner⟩ _ hstep
    exact hinner.step hstep

/-- **The plugin refines the protocol of its listener.** Whatever collectd writes, and
however the rounds of the worker, what arrives from the monitors and the failures of
either connection come between, no value keeps the worker from the next one. It takes the
values of SQLAlchemy that were written while it was in its loop, in their order, and the
listener broadcasts those that can be packed, once each and in that order, whether the
other sender fails or not. -/
theorem forwards_refines {listen monitor : Bool} {events : List (Event α)} {s : ConnmonPlugin α}
    (h : Forwards listen monitor events s) :
    ∃ (taken : List (Values Number)) (trace : List (ServerSender.Event α)),
      handed false events = taken ++ s.worker.queue ∧
      s.worker.state.listener = (if listen then some (ServerSender.run trace) else none) ∧
      trace.filterMap ServerSender.Event.message? = taken.filterMap packed? ∧
      trace.filterMap ServerSender.Event.datagram? =
        (events.filterMap Event.action?).filterMap Action.datagram? ∧
      ((0 :: (events.filterMap Event.action?).filterMap Action.tick?).Pairwise (· ≤ ·) →
        From 0 trace) ∧
      (s.looping → s.worker.status = .running → s.worker.queue ≠ [] → (step s .take).isSome) := by
  obtain ⟨inner, hinner⟩ := exists_follows h
  -- the log has the values that were taken and what happened between them
  obtain ⟨log, hlog⟩ := Mailbox.exists_log hinner.run
  have hothers : events.filterMap Event.action? = Mailbox.others log :=
    hinner.actions.symm.trans hlog.actions
  refine ⟨Mailbox.items log, trace 0 log, hinner.arrivals.symm.trans hlog.arrivals, ?_,
    messages_trace 0 log, hothers ▸ datagrams_trace 0 log, ?_, ?_⟩
  · rw [hlog.state, foldl_effect_listener]
    cases listen <;> rfl
  · intro hclock
    exact from_trace (hothers ▸ hclock)
  · intro hlooping hrunning hqueue
    obtain ⟨v, queue, hqueue⟩ := List.exists_cons_of_ne_nil hqueue
    obtain ⟨monitor', hforward⟩ := forward_listener s.worker.state v
    rw [step, if_pos hlooping, onWorker, Option.isSome_map, Mailbox.step, hrunning, hqueue]
    simp only [hforward, Option.isSome_some]

/-- A run with one monitor, a value of another plugin and one of SQLAlchemy. -/
def oneValue : List (Event ℕ) :=
  [.init, .act (.tick 5), .act (.datagram ServerSender.helo 7),
    .write { type := "derive", plugin := "cpu", time := some 5, values := [.int 1] },
    .write { type := "derive", plugin := "sqlalchemy", time := some 5, values := [.int 2] }, .take]

theorem forwards_refines_oneValue :
    ∃ (s : ConnmonPlugin ℕ) (taken : List (Values Number)) (trace : List (ServerSender.Event ℕ)),
      s.worker.queue = [] ∧
      handed false oneValue = taken ++ s.worker.queue ∧
      s.worker.state.listener = (if true then some (ServerSender.run trace) else none) ∧
      trace.filterMap ServerSender.Event.message? = taken.filterMap packed? ∧
      trace.filterMap ServerSender.Event.datagram? =
        (oneValue.filterMap Event.action?).filterMap Action.datagram? ∧
      ((0 :: (oneValue.filterMap Event.action?).filterMap Action.tick?).Pairwise (· ≤ ·) →
        From 0 trace) ∧
      (s.looping → s.worker.status = .running → s.worker.queue ≠ [] → (step s .take).isSome) := by
  have hdrained : (oneValue.foldlM (guarded step fun _ _ => True) (start true true)).map
      (fun s => s.worker.queue) = some [] := by decide +kernel
  obtain ⟨s, hs, hqueue⟩ := Option.map_eq_some_iff.mp hdrained
  obtain ⟨taken, trace, hrefines⟩ := forwards_refines (Run.of_exec hs)
  exact ⟨s, taken, trace, hqueue, hrefines⟩

end ConnmonPlugin

end SqlalchemyCollectd
