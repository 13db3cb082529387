import SqlalchemyCollectd.Networking.Service
import SqlalchemyCollectd.Connmon.Failures

/-!
# SqlalchemyCollectd.Connmon.Monitor

The monitor as it runs: `_wrap_update` and `_process_hostprogs` on one event loop.

Datagrams arrive in a queue, the one task takes them and updates the statistics, the
other ages the rows every half second. Neither is interrupted by the other between two
`await`s, so a message and a pass happen as a whole; but a datagram whose part loop does
not end keeps the event loop for ever, and then nothing happens any more.
-/

namespace SqlalchemyCollectd

namespace Stat

open Service

/-- One round of `_wrap_update`. -/
def serve : Stat → Item → Option Stat := handle monitorTypes fun st m => st.step (.message m)

/-- One round of `_process_hostprogs`. -/
def age (st : Stat) (now : ℚ) : Stat := st.step (.pass now)

/-- The monitor after `start`. -/
abbrev Monitors (events : List (Mailbox.Event Item ℚ)) (s : Mailbox.State Stat Item) : Prop :=
  Transition.Run (Mailbox.step serve age) (fun s _ => s.status ≠ .stuck) { state := {} } events s

/-- The event that an entry of a sequence is. -/
def eventOf : Message Number ⊕ ℚ → Event
  | .inl m => .message m
  | .inr now => .pass now

/-- The message of an event. -/
def Event.message? : Event → Option (Message Number)
  | .message m => some m
  | .pass _ => none

/-- The time of a pass. -/
def Event.pass? : Event → Option ℚ
  | .message _ => none
  | .pass now => some now

theorem foldl_eventOf (sequence : List (Message Number ⊕ ℚ)) (st : Stat) :
    sequence.foldl (fun st => Sum.elim (fun m => st.step (.message m)) (age st)) st =
      (sequence.map eventOf).foldl step st := by
  rw [List.foldl_map]
  congr 1
  funext st entry
  cases entry <;> rfl

theorem filterMap_message?_eventOf (sequence : List (Message Number ⊕ ℚ)) :
    (sequence.map eventOf).filterMap Event.message? = Mailbox.items sequence := by
  rw [List.filterMap_map, Mailbox.items]
  refine List.filterMap_congr fun entry _ => ?_
  cases entry <;> rfl

theorem filterMap_pass?_eventOf (sequence : List (Message Number ⊕ ℚ)) :
    (sequence.map eventOf).filterMap Event.pass? = Mailbox.others sequence := by
  rw [List.filterMap_map, Mailbox.others]
  refine List.filterMap_congr fun entry _ => ?_
  cases entry <;> rfl

theorem decodable_of_messageOf {item : Item} {m : Message Number}
    (h : messageOf monitorTypes item = some m) : Decodable m := by
  obtain ⟨buf, -, hbuf⟩ := messageOf_eq_some_iff.mp h
  exact ⟨buf, hbuf⟩

/-- What a run of the monitor comes to: the datagrams that were served, and the events of
its statistics. -/
structure Follows (events : List (Mailbox.Event Item ℚ)) (s : Mailbox.State Stat Item)
    (served : List Item) (history : List Event) : Prop where
  arrivals : Mailbox.arrivals events = served ++ s.queue
  messages : history.filterMap Event.message? = served.filterMap (messageOf monitorTypes)
  passes : history.filterMap Event.pass? = Mailbox.actions events
  state : s.state = run history
  stuck : s.status = .stuck ↔ ∃ buf, some buf ∈ served ∧ Stalls buf

theorem exists_follows {events : List (Mailbox.Event Item ℚ)} {s : Mailbox.State Stat Item}
    (h : Monitors events s) : ∃ served history, Follows events s served history := by
  obtain ⟨served, sequence, hcomes⟩ := exists_comes h
  exact ⟨served, sequence.map eventOf, hcomes.arrivals,
    (filterMap_message?_eventOf sequence).trans hcomes.messages,
    (filterMap_pass?_eventOf sequence).trans hcomes.actions,
    hcomes.state.trans (foldl_eventOf sequence {}), hcomes.stuck⟩

/-- A message of the history was served. -/
theorem Follows.exists_served {events : List (Mailbox.Event Item ℚ)}
    {s : Mailbox.State Stat Item} {served : List Item} {history : List Event}
    (h : Follows events s served history) {m : Message Number} (hm : .message m ∈ history) :
    ∃ item ∈ served, messageOf monitorTypes item = some m := by
  refine List.mem_filterMap.mp ?_
  rw [← h.messages]
  exact List.mem_filterMap.mpr ⟨_, hm, rfl⟩

/-- **The monitor refines its statistics.** Whatever arrives, and however the two tasks
alternate, the statistics are those of a run of the messages that were served and of the
passes. No pass raises, so the task that ages the rows goes on; and what an update raises
is a missing value or a division by zero, which the other task logs. The other task hangs
exactly when it has met a datagram whose part loop does not end. -/
theorem monitors_refines {events : List (Mailbox.Event Item ℚ)} {s : Mailbox.State Stat Item}
    (h : Monitors events s) :
    ∃ (served : List Item) (history : List Event),
      Mailbox.arrivals events = served ++ s.queue ∧
      history.filterMap Event.message? = served.filterMap (messageOf monitorTypes) ∧
      history.filterMap Event.pass? = Mailbox.actions events ∧
      s.state = run history ∧
      (s.status = .stuck ↔ ∃ buf, some buf ∈ served ∧ Stalls buf) ∧
      (∀ now, ∃ st, processHostprogs now s.state = .ok () st) ∧
      ∀ item m e st, messageOf monitorTypes item = some m → update m s.state = .error e st →
        e = .indexError ∨ e = .zeroDivisionError := by
  obtain ⟨served, history, hfollows⟩ := exists_follows h
  -- all that is decoded is within the range of the wire
  have hrange : InRange history := by
    intro m hm
    obtain ⟨item, -, hitem⟩ := hfollows.exists_served hm
    obtain ⟨buf, hbuf⟩ := decodable_of_messageOf hitem
    exact inRange_of_unpackBytes hbuf
  refine ⟨served, history, hfollows.arrivals, hfollows.messages, hfollows.passes, hfollows.state,
    hfollows.stuck, ?_, ?_⟩
  · intro now
    obtain ⟨st, hst, -⟩ := processHostprogs_ok (keyed_run history) now
    exact ⟨st, hfollows.state ▸ hst⟩
  · intro item m e st hitem herror
    obtain ⟨buf, hbuf⟩ := decodable_of_messageOf hitem
    exact error_of_update (inRange_of_unpackBytes hbuf) (rowsSound_run hrange)
      (hfollows.state ▸ herror)

/-- The checkouts of a program, a pass, and a message without a value. -/
def valuelessEvents : List (Mailbox.Event Item ℚ) :=
  [.arrive (some ((packValues senderTypes (checkouts 10)).toOption.getD [])),
    .arrive (some valueless.flatten), .take, .act 1000, .take]

/-- The second message raises, and the monitor goes on. -/
theorem monitors_refines_valueless :
    ∃ (s : Mailbox.State Stat Item) (served : List Item) (history : List Event),
      Monitors valuelessEvents s ∧ Mailbox.arrivals valuelessEvents = served ++ s.queue ∧
      s.queue = [] ∧
      history.filterMap Event.message? =
        [arrived 10, ⟨"count", "numprocs", "p", "w", "h", 70, 10, []⟩] ∧
      history.filterMap Event.pass? = [1000] ∧
      s.state = run history ∧ s.status ≠ .stuck ∧
      (∀ now, ∃ st, processHostprogs now s.state = .ok () st) ∧
      ∃ e st, update ⟨"count", "numprocs", "p", "w", "h", 70, 10, []⟩ s.state = .error e st ∧
        (e = .indexError ∨ e = .zeroDivisionError) := by
  have hexec : (valuelessEvents.foldlM (Transition.guarded (Mailbox.step serve age)
      fun s _ => s.status ≠ .stuck) { state := {} }).map (fun s =>
        (s.queue, decide (s.status = .stuck),
          raised? ⟨"count", "numprocs", "p", "w", "h", 70, 10, []⟩ s.state)) =
      some ([], false, some .indexError) := by
    decide +kernel
  obtain ⟨s, hs, hends⟩ := Option.map_eq_some_iff.mp hexec
  obtain ⟨hqueue, hends⟩ := Prod.mk.inj hends
  obtain ⟨hstuck, hraised⟩ := Prod.mk.inj hends
  obtain ⟨served, history, harrivals, hmessages, hpasses, hstate, -, hages, herrors⟩ :=
    monitors_refines (Transition.Run.of_exec hs)
  have hserved : served = [some ((packValues senderTypes (checkouts 10)).toOption.getD []),
      some valueless.flatten] := by
    rw [hqueue, List.append_nil] at harrivals
    exact harrivals.symm
  have hmessage : messageOf monitorTypes (some valueless.flatten) =
      some ⟨"count", "numprocs", "p", "w", "h", 70, 10, []⟩ := by
    decide +kernel
  refine ⟨s, served, history, Transition.Run.of_exec hs, harrivals, hqueue, ?_, hpasses, hstate,
    of_decide_eq_false hstuck, hages, ?_⟩
  · rw [hmessages, hserved]
    decide +kernel
  · cases hupdate : update ⟨"count", "numprocs", "p", "w", "h", 70, 10, []⟩ s.state with
    | ok _ st =>
        rw [raised?, hupdate] at hraised
        cases hraised
    | error e st => exact ⟨e, st, rfl, herrors _ _ e st hmessage hupdate⟩

end Stat

end SqlalchemyCollectd
