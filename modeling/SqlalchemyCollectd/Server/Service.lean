import SqlalchemyCollectd.Networking.Service
import SqlalchemyCollectd.Server.Generator

/-!
# SqlalchemyCollectd.Server.Service

The server plugin as collectd runs it.

The listener thread of `CollectdAsyncReceiverQueue` takes datagrams from its queue one
after the other, while collectd's read thread consumes the generator of a summary. A
message is stored as a whole; a read goes on tick by tick, and messages may come in
between two ticks. The receiver of a running plugin is nevertheless one that its
messages and the visits of its reads lead to (`serves_refines`), and everything that is
known of such receivers is known of the plugin.
-/

namespace SqlalchemyCollectd

open Service Receiver

/-- The plugin at work: the time of the last read, if there was one, and the summary that
it consumes, with the receiver in it. -/
structure ServerPlugin where
  now : Option ℚ := none
  summary : Generator Number := { receiver := {} }

/-- What the read thread does: collectd calls `read`, or the loop in it takes the next
step. -/
inductive ReadStep
  | begin (now : ℚ)
  | resume
  deriving DecidableEq

/-- The message of an operation. -/
def Receiver.Op.message? : Op Number → Option (Message Number)
  | .setStats m => some m
  | .summarize _ => none

namespace ServerPlugin

/-- The receiver of the plugin. -/
def receiver (s : ServerPlugin) : Receiver Number := s.summary.receiver

/-- `Receiver.receive` with a message. -/
def store (s : ServerPlugin) (m : Message Number) : ServerPlugin :=
  { s with summary := s.summary.store m }

/-- `read`, step by step. -/
def read (s : ServerPlugin) : ReadStep → ServerPlugin
  | .begin now => { now, summary := .start s.receiver }
  | .resume =>
      match s.now with
      | some now => { s with summary := (s.summary.tick now).getD s.summary }
      | none => s

/-- One round of the listener: `Receiver.receive` in the loop of `AsyncWorker`. -/
def serve : ServerPlugin → Item → Option ServerPlugin := handle InternalType.types store

/-- The plugin after it has been started: datagrams arrive, the listener takes them, and
collectd reads. -/
abbrev Serves (events : List (Mailbox.Event Item ReadStep))
    (s : Mailbox.State ServerPlugin Item) : Prop :=
  Transition.Run (Mailbox.step serve read) (fun _ _ => True) { state := {} } events s

/-- The plugin after a sequence of messages and steps of reads. -/
def replay (sequence : List (Message Number ⊕ ReadStep)) : ServerPlugin :=
  sequence.foldl (fun s => Sum.elim s.store s.read) {}

theorem replay_append (sequence : List (Message Number ⊕ ReadStep))
    (entry : Message Number ⊕ ReadStep) :
    replay (sequence ++ [entry]) =
      Sum.elim (replay sequence).store (replay sequence).read entry := by
  unfold replay
  rw [List.foldl_append]
  rfl

/-! ### The receiver -/

/-- A history of the receiver in a sequence: its messages are those of the sequence, and
its visits are made at times at which a read began. -/
structure History (sequence : List (Message Number ⊕ ReadStep)) (ops : List (Op Number)) :
    Prop where
  messages : ops.filterMap Op.message? = Mailbox.items sequence
  times : ∀ now, .summarize now ∈ ops → .begin now ∈ Mailbox.others sequence

namespace History

variable {sequence : List (Message Number ⊕ ReadStep)} {ops : List (Op Number)}

theorem store (h : History sequence ops) (m : Message Number) :
    History (sequence ++ [.inl m]) (ops ++ [.setStats m]) where
  messages := by
    rw [List.filterMap_append, h.messages, Mailbox.items_append_inl]
    rfl
  times now hnow := by
    rw [Mailbox.others_append_inl]
    exact h.times now (by simpa using hnow)

theorem read (h : History sequence ops) (action : ReadStep) :
    History (sequence ++ [.inr action]) ops where
  messages := by rw [h.messages, Mailbox.items_append_inr]
  times now hnow := by
    rw [Mailbox.others_append_inr]
    exact List.mem_append_left _ (h.times now hnow)

theorem visit (h : History sequence ops) {now : ℚ} (hbegun : .begin now ∈ Mailbox.others sequence) :
    History sequence (ops ++ [.summarize now]) where
  messages := by
    rw [List.filterMap_append, h.messages]
    exact List.append_nil _
  times now' hnow' := by
    obtain hnow' | hnow' := List.mem_append.mp hnow'
    · exact h.times now' hnow'
    · exact Op.summarize.inj (List.mem_singleton.mp hnow') ▸ hbegun

end History

/-- The read that is under way has begun. -/
theorem begin_mem_of_now {sequence : List (Message Number ⊕ ReadStep)} {now : ℚ}
    (h : (replay sequence).now = some now) : .begin now ∈ Mailbox.others sequence := by
  induction sequence using List.reverseRecOn with
  | nil => cases h
  | append_singleton sequence entry ih =>
      rw [replay_append] at h
      cases entry with
      | inl m =>
          rw [Mailbox.others_append_inl]
          exact ih h
      | inr action =>
          rw [Mailbox.others_append_inr]
          cases action with
          | begin now' =>
              obtain rfl := Option.some.inj h
              exact List.mem_append_right _ List.mem_cons_self
          | resume =>
              refine List.mem_append_left _ (ih ?_)
              rw [Sum.elim_inr, ServerPlugin.read] at h
              split at h <;> assumption

/-- **Every step of a read visits a bucket or none**: the receiver has a history. -/
theorem exists_history (sequence : List (Message Number ⊕ ReadStep)) :
    ∃ ops, History sequence ops ∧ Reaches ops (replay sequence).receiver := by
  induction sequence using List.reverseRecOn with
  | nil => exact ⟨[], ⟨rfl, by simp⟩, .nil⟩
  | append_singleton sequence entry ih =>
      obtain ⟨ops, hops, hreaches⟩ := ih
      rw [replay_append]
      cases entry with
      | inl m => exact ⟨_, hops.store m, hreaches.setStats m⟩
      | inr action =>
          have hkeep := hops.read action
          cases action with
          | begin now => exact ⟨ops, hkeep, hreaches⟩
          | resume =>
              rw [Sum.elim_inr, ServerPlugin.read]
              cases hnow : (replay sequence).now with
              | none => exact ⟨ops, hkeep, hreaches⟩
              | some now =>
                  dsimp only
                  cases htick : (replay sequence).summary.tick now with
                  | none => exact ⟨ops, hkeep, hreaches⟩
                  | some summary =>
                      have hbegun : .begin now ∈ Mailbox.others (sequence ++ [.inr .resume]) := by
                        rw [Mailbox.others_append_inr]
                        exact List.mem_append_left _ (begin_mem_of_now hnow)
                      exact ⟨_, hkeep.visit hbegun,
                        hreaches.visits (Generator.visits_tick htick)⟩

/-! ### A read without interruption -/

/-- The read thread takes as many ticks as it likes. -/
theorem exists_resumes {now : ℚ} {summary summary' : Generator Number}
    {is : List (Generator.Event Number)}
    (h : Transition.Run (Generator.step now) (fun _ e => e = .tick) summary is summary')
    (s : Mailbox.State ServerPlugin Item) (hs : s.state = ⟨some now, summary⟩) :
    Transition.Run (Mailbox.step serve read) (fun _ _ => True) s
      (List.replicate is.length (.act .resume)) { s with state := ⟨some now, summary'⟩ } := by
  induction h with
  | nil =>
      rw [← hs]
      exact .nil
  | @snoc is mid event last _ htick hstep ih =>
      subst htick
      rw [List.length_append, List.length_singleton, List.replicate_succ']
      have hread : read ⟨some now, mid⟩ .resume = ⟨some now, last⟩ := by
        rw [read]
        dsimp only
        rw [show mid.tick now = some last from hstep, Option.getD_some]
      refine ih.snoc trivial ?_
      show some { s with state := read ⟨some now, mid⟩ .resume } = _
      rw [hread]

/-- **A read that nothing interrupts** is a summary. -/
theorem exists_summarize (s : Mailbox.State ServerPlugin Item) (now : ℚ) :
    ∃ (n : ℕ) (summary : Generator Number),
      Transition.Run (Mailbox.step serve read) (fun _ _ => True) s
        (.act (.begin now) :: List.replicate n (.act .resume))
        { s with state := ⟨some now, summary⟩ } ∧
      summary.tick now = none ∧
      summarize now s.state.receiver = (⟨summary.emitted, summary.raised⟩, summary.receiver) := by
  obtain ⟨is, summary, hrun, hend, houtcome⟩ :=
    Generator.exists_exhausted now (.start s.state.receiver)
  refine ⟨is.length, summary, ?_, hend, ?_⟩
  · exact Transition.Run.cons trivial rfl
      (exists_resumes hrun { s with state := ⟨some now, .start s.state.receiver⟩ } rfl)
  · refine Prod.ext ?_ ?_
    · rw [← Generator.outcome_start, houtcome]
    · rw [← Generator.settled_start, ← Generator.settled_ticks hrun,
        Generator.settled_exhausted hend]

/-! ### Runs -/

/-- **The plugin refines the receiver.** However arrivals, rounds of the listener and
steps of reads alternate, the plugin is where a sequence of messages and of steps of
reads leads: the messages of the datagrams that were served, in the order of their
arrival, and all steps of the reads, in theirs. The receiver has come there by these
messages and by visits at the times at which the reads began. The listener hangs exactly
when it has met a datagram whose part loop does not end; until then it can always catch up
with its queue. A read that is not interrupted takes the summary as a whole. -/
theorem serves_refines {events : List (Mailbox.Event Item ReadStep)}
    {s : Mailbox.State ServerPlugin Item} (h : Serves events s) :
    ∃ (served : List Item) (sequence : List (Message Number ⊕ ReadStep)) (ops : List (Op Number)),
      Mailbox.arrivals events = served ++ s.queue ∧
      Mailbox.items sequence = served.filterMap (messageOf InternalType.types) ∧
      Mailbox.others sequence = Mailbox.actions events ∧
      s.state = replay sequence ∧
      History sequence ops ∧ Reaches ops s.state.receiver ∧
      (s.status = .stuck ↔ ∃ buf, some buf ∈ served ∧ Stalls buf) ∧
      (s.status = .running → (∀ buf, some buf ∈ s.queue → ¬Stalls buf) →
        Serves (events ++ List.replicate s.queue.length .take)
          { s with
            queue := []
            state := (s.queue.filterMap (messageOf InternalType.types)).foldl store s.state }) ∧
      ∀ now, ∃ (n : ℕ) (summary : Generator Number),
        Serves (events ++ .act (.begin now) :: List.replicate n (.act .resume))
          { s with state := ⟨some now, summary⟩ } ∧
        summary.tick now = none ∧
        summarize now s.state.receiver =
          (⟨summary.emitted, summary.raised⟩, summary.receiver) := by
  obtain ⟨served, sequence, hcomes⟩ := exists_comes h
  have hstate : s.state = replay sequence := hcomes.state
  obtain ⟨ops, hops, hreaches⟩ := exists_history sequence
  refine ⟨served, sequence, ops, hcomes.arrivals, hcomes.messages, hcomes.actions, hstate, hops,
    hstate ▸ hreaches, hcomes.stuck, ?_, fun now => ?_⟩
  · intro hrunning hfree
    obtain ⟨state, hrun, rfl⟩ : ∃ state, Transition.Run (Mailbox.step serve read)
          (fun _ _ => True) s (List.replicate s.queue.length .take) { s with queue := [], state } ∧
        state = (s.queue.filterMap (messageOf InternalType.types)).foldl store s.state :=
      exists_drain hrunning hfree
    exact h.append hrun
  · obtain ⟨n, summary, hrun, hend, hsummary⟩ := exists_summarize s now
    exact ⟨n, summary, h.append hrun, hend, hsummary⟩

/-- A datagram that keeps the listener for ever, one behind it, and a read that goes on. -/
theorem serves_refines_hung :
    ∃ (served : List Item) (sequence : List (Message Number ⊕ ReadStep)) (ops : List (Op Number)),
      [some [0, 255, 0, 0], none] = served ++ [none] ∧
      Mailbox.items sequence = served.filterMap (messageOf InternalType.types) ∧
      Mailbox.others sequence = [.begin 5, .resume] ∧
      read (read {} (.begin 5)) .resume = replay sequence ∧
      History sequence ops ∧ Reaches ops (read (read {} (.begin 5)) .resume).receiver ∧
      (Mailbox.Status.stuck = .stuck ↔ ∃ buf, some buf ∈ served ∧ Stalls buf) := by
  have hhung : ∀ s, serve s (some [0, 255, 0, 0]) = none := by
    intro s
    have hnone : unpackBytes InternalType.types [0, 255, 0, 0] = none := by decide +kernel
    rw [serve, handle, receiveAsync, hnone]
    rfl
  have htake : Mailbox.step serve read
        ⟨[some [0, 255, 0, 0], none], read {} (.begin 5), .running⟩ .take =
      some ⟨[none], read {} (.begin 5), .stuck⟩ := by
    simp only [Mailbox.step, hhung]
  have hrun : Serves
      [.arrive (some [0, 255, 0, 0]), .arrive none, .act (.begin 5), .take, .act .resume]
      ⟨[none], read (read {} (.begin 5)) .resume, .stuck⟩ :=
    ((((Transition.Run.nil.snoc trivial rfl).snoc trivial rfl).snoc trivial rfl).snoc trivial
      htake).snoc trivial rfl
  obtain ⟨served, sequence, ops, harrivals, hitems, hothers, hstate, hops, hreaches, hstuck, -⟩ :=
    serves_refines hrun
  exact ⟨served, sequence, ops, harrivals, hitems, hothers, hstate, hops, hreaches, hstuck⟩

end ServerPlugin

end SqlalchemyCollectd
