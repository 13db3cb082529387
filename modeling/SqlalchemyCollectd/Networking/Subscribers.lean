import SqlalchemyCollectd.Lib.Leases
import SqlalchemyCollectd.Lib.Struct
import SqlalchemyCollectd.Python

/-!
# SqlalchemyCollectd.Networking.Subscribers

Whom the connmon plugin sends to: `_ServerSenderProtocol`, the server side of a
subscription that a monitor keeps up by saying `HELO`.

The protocol remembers when each address said so last. Sending to all goes over a copy
of the addresses, forgets those that have been silent for more than 30 seconds and sends
to the others. Addresses are leases that only a visit of the table ends
(`addrs_run`), and a broadcast is such a visit (`sendToAll_eq`).
-/

namespace SqlalchemyCollectd

open Struct

/-- `_ServerSenderProtocol`, with what it has handed to its transport so far. -/
structure ServerSender (α : Type) where
  addrs : OrderedDict α ℚ := .empty
  /-- `self.transport is not None`. -/
  connected : Bool := true
  sent : List (α × Bytes) := []

namespace ServerSender

variable {α : Type} [DecidableEq α]

/-- `self.addrs.pop(addr)`. -/
def pop (addr : α) : EStateM PyError (ServerSender α) Unit := fun s =>
  if addr ∈ s.addrs.keys then .ok () { s with addrs := s.addrs.erase addr } else .error .keyError s

omit [DecidableEq α] in
/-- `self.transport.sendto(message, addr)`, if the transport is still there. -/
def sendto (message : Bytes) (addr : α) (s : ServerSender α) : ServerSender α :=
  if s.connected then { s with sent := s.sent ++ [(addr, message)] } else s

/-- The body of the loop of `send_to_all`. -/
def sendToOne (now : ℚ) (message : Bytes) (addr : α) (ts : ℚ) :
    EStateM PyError (ServerSender α) Unit :=
  if 30 < now - ts then pop addr else modify (sendto message addr)

/-- `send_to_all`, at time `now`. The loop is over a list of the entries. -/
def sendToAll (now : ℚ) (message : Bytes) : EStateM PyError (ServerSender α) Unit := do
  (← get).addrs.items.forM fun (addr, ts) => sendToOne now message addr ts

/-- `b"HELO"`. -/
def helo : Bytes := [72, 69, 76, 79]

/-- `datagram_received`, at time `now`. -/
def datagramReceived (now : ℚ) (data : Bytes) (addr : α) (s : ServerSender α) : ServerSender α :=
  if data = helo then { s with addrs := s.addrs.set addr now } else s

omit [DecidableEq α] in
/-- `connection_lost`. -/
def connectionLost (s : ServerSender α) : ServerSender α := { s with connected := false }

/-- What happens to the protocol. -/
inductive Event (α : Type)
  | datagram (data : Bytes) (addr : α) (now : ℚ)
  | send (message : Bytes) (now : ℚ)
  | lost

def step (s : ServerSender α) : Event α → ServerSender α
  | .datagram data addr now => s.datagramReceived now data addr
  | .send message now =>
      match sendToAll now message s with
      | .ok _ s => s
      | .error _ s => s
  | .lost => s.connectionLost

/-- The protocol after a run, from when it was made. -/
def run (events : List (Event α)) : ServerSender α := events.foldl step {}

/-- What an event does to the leases. -/
def Event.lease? : Event α → Option (Leases.Event α ℚ)
  | .datagram data addr now => if data = helo then some (.renew addr now) else none
  | .send _ now => some (.visit now)
  | .lost => none

/-- The leases of a run. -/
def leases (events : List (Event α)) : List (Leases.Event α ℚ) := events.filterMap Event.lease?

/-! ### Sending to all -/

/-- The addresses that a broadcast at `now` does not forget. -/
def listeners (now : ℚ) (s : ServerSender α) : List α := (Leases.visit 30 now s.addrs).keys

/-- The datagrams of a broadcast. -/
def copies (now : ℚ) (message : Bytes) (s : ServerSender α) : List (α × Bytes) :=
  if s.connected then (s.listeners now).map fun addr => (addr, message) else []

omit [DecidableEq α] in
/-- The entry is one that a broadcast at `now` keeps. -/
def fresh (now : ℚ) (e : α × ℚ) : Bool := !decide (30 < now - e.2)

/-- The loop of `send_to_all`, when it has come to `rest`. -/
theorem forM_sendToOne {now : ℚ} {message : Bytes} {kept rest : List (α × ℚ)}
    {s : ServerSender α} (h : s.addrs.items = kept ++ rest) :
    ∃ s', (rest.forM fun e => sendToOne now message e.1 e.2) s = .ok () s' ∧
      s'.addrs.items = kept ++ rest.filter (fresh now) ∧
      s'.connected = s.connected ∧
      s'.sent = s.sent ++ if s.connected then
        (rest.filter (fresh now)).map fun e => (e.1, message) else [] := by
  induction rest generalizing kept s with
  | nil => exact ⟨s, rfl, h, rfl, by simp⟩
  | cons e rest ih =>
      obtain ⟨addr, ts⟩ := e
      have hloop : ∀ mid, sendToOne now message addr ts s = .ok () mid →
          (((addr, ts) :: rest).forM fun e => sendToOne now message e.1 e.2) s =
            (rest.forM fun e => sendToOne now message e.1 e.2) mid := by
        intro mid hmid
        show EStateM.bind (sendToOne now message addr ts) (fun _ => rest.forM _) s = _
        rw [EStateM.bind, hmid]
      -- the loop goes over a copy, so it may forget an address on the way
      by_cases hold : 30 < now - ts
      · have hmem : addr ∈ s.addrs.keys :=
          OrderedDict.mem_keys_of_mem_items (e := (addr, ts)) (h ▸ by simp)
        obtain ⟨s', hs', hitems, hconnected, hsent⟩ :=
          @ih kept { s with addrs := s.addrs.erase addr } (OrderedDict.items_erase h)
        have hdrop : ¬fresh now (addr, ts) = true := by simp only [fresh, hold]; decide
        refine ⟨s', ?_, ?_, hconnected, ?_⟩
        · rw [hloop { s with addrs := s.addrs.erase addr }, hs']
          rw [sendToOne, if_pos hold, pop, if_pos hmem]
        · rw [hitems, List.filter_cons_of_neg hdrop]
        · rw [hsent, List.filter_cons_of_neg hdrop]
      · obtain ⟨s', hs', hitems, hconnected, hsent⟩ :=
          @ih (kept ++ [(addr, ts)]) (s.sendto message addr) (by
            rw [List.append_assoc, List.singleton_append, ← h, sendto]
            split <;> rfl)
        have hkeep : fresh now (addr, ts) = true := by simp only [fresh, hold]; decide
        refine ⟨s', ?_, ?_, hconnected.trans ?_, hsent.trans ?_⟩
        · rw [hloop (s.sendto message addr), hs']
          rw [sendToOne, if_neg hold]
          rfl
        · rw [hitems, List.filter_cons_of_pos hkeep, List.append_assoc,
            List.singleton_append]
        · rw [sendto]
          split <;> rfl
        · rw [List.filter_cons_of_pos hkeep, List.map_cons, sendto]
          cases hopen : s.connected <;> simp [hopen]

/-- **What `send_to_all` does.** No `pop` misses its key. -/
theorem sendToAll_eq (now : ℚ) (message : Bytes) (s : ServerSender α) :
    sendToAll now message s = .ok () { s with
      addrs := Leases.visit 30 now s.addrs, sent := s.sent ++ s.copies now message } := by
  obtain ⟨s', hs', hitems, hconnected, hsent⟩ :=
    @forM_sendToOne _ _ now message [] s.addrs.items s rfl
  have haddrs : s'.addrs = Leases.visit 30 now s.addrs := OrderedDict.ext_items hitems
  refine hs'.trans (congrArg (EStateM.Result.ok ()) ?_)
  obtain ⟨addrs, connected, sent⟩ := s'
  obtain rfl : addrs = _ := haddrs
  obtain rfl : connected = _ := hconnected
  obtain rfl : sent = _ := hsent
  rw [copies, listeners, ← OrderedDict.map_fst_items, List.map_map]
  rfl

/-! ### Runs -/

theorem step_send (message : Bytes) (now : ℚ) (s : ServerSender α) :
    s.step (.send message now) = { s with
      addrs := Leases.visit 30 now s.addrs, sent := s.sent ++ s.copies now message } := by
  rw [step, sendToAll_eq]

theorem run_append (events : List (Event α)) (event : Event α) :
    run (events ++ [event]) = step (run events) event := by
  rw [run, List.foldl_append]
  rfl

omit [DecidableEq α] in
theorem leases_append (events : List (Event α)) (event : Event α) :
    leases (events ++ [event]) = leases events ++ event.lease?.toList := by
  rw [leases, List.filterMap_append, List.filterMap_cons]
  cases event.lease? <;> rfl

/-- What an event does to the addresses. -/
theorem addrs_step (s : ServerSender α) (event : Event α) :
    (s.step event).addrs = event.lease?.elim s.addrs (Leases.step 30 s.addrs) := by
  cases event with
  | datagram data addr now =>
      rw [step, datagramReceived, Event.lease?]
      by_cases hhelo : data = helo
      · rw [if_pos hhelo, if_pos hhelo]
        rfl
      · rw [if_neg hhelo, if_neg hhelo]
        rfl
  | send message now =>
      rw [step_send]
      rfl
  | lost => rfl

/-- **The addresses of a run** are its leases. -/
theorem addrs_run (events : List (Event α)) :
    (run events).addrs = Leases.run 30 (leases events) := by
  induction events using List.reverseRecOn with
  | nil => rfl
  | append_singleton events event ih =>
      rw [run_append, addrs_step, ih, leases_append]
      cases event.lease? with
      | none => simp
      | some lease => exact (Leases.run_append 30 (leases events) lease).symm

theorem connected_run (events : List (Event α)) :
    (run events).connected = true ↔ .lost ∉ events := by
  induction events using List.reverseRecOn with
  | nil => simp [run]
  | append_singleton events event ih =>
      rw [run_append]
      cases event with
      | datagram data addr now =>
          rw [step, datagramReceived]
          split <;> simp [ih]
      | send message now => simp [step_send, ih]
      | lost => simp [step, connectionLost]

theorem exists_helo_of_mem_listeners {events : List (Event α)} {now : ℚ} {addr : α}
    (h : addr ∈ listeners now (run events)) :
    ∃ time, .renew addr time ∈ leases events ∧ now - time ≤ 30 := by
  rw [listeners, OrderedDict.mem_keys_iff, addrs_run, Option.isSome_iff_exists] at h
  obtain ⟨time, hget⟩ := h
  obtain ⟨hheld, hage⟩ := Leases.get?_visit_eq_some_iff.mp hget
  obtain ⟨before, after, hsplit, -⟩ := Leases.get?_run_iff.mp hheld
  exact ⟨time, by simp [hsplit], hage⟩

/-- The time of an event. -/
def Event.time? : Event α → Option ℚ
  | .datagram _ _ now => some now
  | .send _ now => some now
  | .lost => none

omit [DecidableEq α] in
/-- The leases happen at times of the run. -/
theorem map_time_leases (events : List (Event α)) :
    ((leases events).map Leases.Event.time).Sublist (events.filterMap Event.time?) := by
  induction events with
  | nil => exact List.Sublist.slnil
  | cons event events ih =>
      rw [leases, List.filterMap_cons, List.filterMap_cons]
      cases event with
      | datagram data addr now =>
          rw [Event.lease?, Event.time?]
          by_cases hhelo : data = helo
          · rw [if_pos hhelo]
            exact ih.cons_cons now
          · rw [if_neg hhelo]
            exact ih.cons now
      | send message now => exact ih.cons_cons now
      | lost => exact ih

omit [DecidableEq α] in
theorem renew_mem_leases_iff {events : List (Event α)} {addr : α} {now : ℚ} :
    .renew addr now ∈ leases events ↔ .datagram helo addr now ∈ events := by
  rw [leases, List.mem_filterMap]
  constructor
  · rintro ⟨event, hevent, hlease⟩
    cases event with
    | datagram data addr' now' =>
        rw [Event.lease?] at hlease
        split at hlease
        · rename_i hhelo
          cases hlease
          exact hhelo ▸ hevent
        · cases hlease
    | send message now' => cases hlease
    | lost => cases hlease
  · intro hevent
    exact ⟨_, hevent, by rw [Event.lease?, if_pos rfl]⟩

/-- Whatever was sent to an address was broadcast within 30 seconds of a `HELO` from it,
however the clock runs. -/
theorem mem_sent_run {events : List (Event α)} {addr : α} {data : Bytes}
    (h : (addr, data) ∈ (run events).sent) :
    ∃ before now after time, events = before ++ .send data now :: after ∧
      .datagram helo addr time ∈ before ∧ now - time ≤ 30 := by
  induction events using List.reverseRecOn with
  | nil => cases h
  | append_singleton events event ih =>
      have hearlier : (addr, data) ∈ (run events).sent →
          ∃ before now after time, events ++ [event] = before ++ .send data now :: after ∧
            .datagram helo addr time ∈ before ∧ now - time ≤ 30 := by
        intro hmem
        obtain ⟨before, now, after, time, rfl, htime⟩ := ih hmem
        exact ⟨before, now, after ++ [event], time, by simp, htime⟩
      rw [run_append] at h
      cases event with
      | datagram data' addr' now =>
          rw [step, datagramReceived] at h
          split at h <;> exact hearlier h
      | send message now =>
          rw [step_send, List.mem_append] at h
          rcases h with h | h
          · exact hearlier h
          · rw [copies] at h
            split at h
            · obtain ⟨addr', hlistens, hcopy⟩ := List.mem_map.mp h
              cases hcopy
              obtain ⟨time, hrenew, hage⟩ := exists_helo_of_mem_listeners hlistens
              exact ⟨events, now, [], time, rfl, renew_mem_leases_iff.mp hrenew, hage⟩
            · cases h
      | lost => exact hearlier h

/-- What was sent stays sent. -/
theorem sent_subset_step (s : ServerSender α) (event : Event α) : s.sent ⊆ (s.step event).sent := by
  cases event with
  | datagram data addr now =>
      rw [step, datagramReceived]
      split <;> exact List.Subset.refl _
  | send message now =>
      rw [step_send]
      exact List.subset_append_left _ _
  | lost => exact List.Subset.refl _

/-- **A broadcast reaches the subscribers, each once.** While the clock does not go
backwards, `send_to_all` sends the message to the addresses that have said `HELO` within
the last 30 seconds, and those are the ones it still knows afterwards. It raises nothing,
and sends nothing once the transport is gone. -/
theorem sendToAll_reaches {events : List (Event α)} {now : ℚ} (message : Bytes)
    (hclock : (events.filterMap Event.time?).Pairwise (· ≤ ·))
    (hnow : ∀ time ∈ events.filterMap Event.time?, time ≤ now) :
    ∃ (s : ServerSender α) (reached : List α),
      sendToAll now message (run events) = .ok () s ∧
      s.sent = (run events).sent ++ reached.map (fun addr => (addr, message)) ∧
      reached.Nodup ∧
      (∀ addr, addr ∈ s.addrs.keys ↔
        ∃ time, .datagram helo addr time ∈ events ∧ now - time ≤ 30) ∧
      ∀ addr, addr ∈ reached ↔ .lost ∉ events ∧
        ∃ time, .datagram helo addr time ∈ events ∧ now - time ≤ 30 := by
  have hlisteners : ∀ addr, addr ∈ listeners now (run events) ↔
      ∃ time, .datagram helo addr time ∈ events ∧ now - time ≤ 30 := by
    intro addr
    have htimes := map_time_leases events
    rw [listeners, addrs_run, Leases.mem_keys_visit_iff (hclock.sublist htimes)]
    · simp only [renew_mem_leases_iff]
    · intro lease hlease
      exact hnow _ (htimes.mem (List.mem_map_of_mem hlease))
  refine ⟨_, if (run events).connected then listeners now (run events) else [],
    sendToAll_eq now message (run events), ?_, ?_, hlisteners, ?_⟩
  · rw [copies]
    split <;> rfl
  · split
    · exact OrderedDict.keys_nodup _
    · exact List.nodup_nil
  · intro addr
    rw [← connected_run, ← hlisteners]
    split <;> simp_all

/-- One address has been silent for too long, another has not, and a third has never said
`HELO`. -/
theorem sendToAll_reaches_one :
    ∃ (s : ServerSender ℕ) (reached : List ℕ),
      sendToAll 40 [1] (run [.datagram helo 1 0, .datagram helo 2 20, .send [0] 25,
        .datagram [9] 3 26]) = .ok () s ∧
      s.sent = (run [.datagram helo 1 0, .datagram helo 2 20, .send [0] 25,
        .datagram [9] 3 26]).sent ++ reached.map (fun addr => (addr, [1])) ∧
      reached.Nodup ∧
      (∀ addr, addr ∈ s.addrs.keys ↔
        ∃ time, .datagram helo addr time ∈ [Event.datagram helo 1 0, .datagram helo 2 20,
          .send [0] 25, .datagram [9] 3 26] ∧ (40 : ℚ) - time ≤ 30) ∧
      ∀ addr, addr ∈ reached ↔ .lost ∉ [Event.datagram helo 1 0, .datagram helo 2 20,
          .send [0] 25, .datagram [9] 3 26] ∧
        ∃ time, .datagram helo addr time ∈ [Event.datagram helo 1 0, .datagram helo 2 20,
          .send [0] 25, .datagram [9] 3 26] ∧ (40 : ℚ) - time ≤ 30 := by
  refine sendToAll_reaches [1] ?_ ?_
  · rw [show [Event.datagram helo 1 0, .datagram helo 2 20, .send [0] 25,
      .datagram [9] 3 26].filterMap Event.time? = [0, 20, 25, 26] from rfl]
    decide +kernel
  · rw [show [Event.datagram helo 1 0, .datagram helo 2 20, .send [0] 25,
      .datagram [9] 3 26].filterMap Event.time? = [0, 20, 25, 26] from rfl]
    decide +kernel

end ServerSender

end SqlalchemyCollectd
