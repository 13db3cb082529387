import SqlalchemyCollectd.Connmon.Counters
import SqlalchemyCollectd.Connmon.Survival

/-!
# SqlalchemyCollectd.Connmon.Endurance

A monitor of processes that do not count too much.

The messages of a monitor come from the summaries of a server, and the server's numbers
from the reports of the processes. Where there are at most `2 ^ 16` processes, with plain
names and with counts that leave room to add them up, all messages are tame
(`Tells.tame`), and the display of the monitor goes on for ever.
-/

namespace SqlalchemyCollectd

open Receiver Service TimeBucket

/-- A report of a process with plain names that does not count too much. -/
structure Report.Modest (r : Report) : Prop where
  hostname : Plain r.sender.hostname.toList
  program : Plain r.sender.statsName.toList
  named : r.sender.statsName ≠ "host"
  pool : ∀ n ∈ r.counts .pool, n < 2 ^ 16
  totals : ∀ n ∈ r.counts .totals, n < 2 ^ 36

namespace Dispatch

/-- The processes that have reported. -/
def processes (dispatches : List Dispatch) : Finset ProcessKey :=
  (dispatches.map fun p => p.1.key).toFinset

/-- Not too many processes have sent modest reports. -/
structure Modest (dispatches : List Dispatch) : Prop where
  reports : ∀ p ∈ dispatches, p.1.Modest
  few : (processes dispatches).card ≤ 2 ^ 16

theorem mem_processes {dispatches : List Dispatch} {k : ProcessKey} :
    k ∈ processes dispatches ↔ ∃ p ∈ dispatches, p.1.key = k := by
  rw [processes, List.mem_toFinset, List.mem_map]

theorem Modest.left {arrived waiting : List Dispatch} (h : Modest (arrived ++ waiting)) :
    Modest arrived where
  reports p hp := h.reports p (List.mem_append_left _ hp)
  few := by
    refine (Finset.card_le_card fun k hk => ?_).trans h.few
    obtain ⟨p, hp, rfl⟩ := mem_processes.mp hk
    exact mem_processes.mpr ⟨p, List.mem_append_left _ hp, rfl⟩

section Tells

variable {t : ℚ} {dispatches : List Dispatch} {ops : List (Op Number)} {s : Receiver Number}
  {τ : InternalType} {g : Grouping} {c : String ×ₗ String} {i : ℕ} {field : String}
  {v : Values Number}

end Tells

/-- A message that a monitor gets of a server that only modest reports come to. -/
def Reported (m : Message Number) : Prop :=
  ∃ (t : ℚ) (arrivals : List (Mailbox.Event Item ReadStep)) (dispatches : List Dispatch)
    (s : Mailbox.State ServerPlugin Item) (v : Values Number) (interval : ℤ),
    ServerPlugin.Serves arrivals s ∧ Feeds t arrivals dispatches ∧ Modest dispatches ∧
    (0 ≤ t ∧ t < 2 ^ 63) ∧ v ∈ (summarize t s.state.receiver).1.values ∧
    (0 < interval ∧ interval < 2 ^ 63) ∧ relay { v with interval } = some (.ok (some m))

end Dispatch

namespace Session

end Session

end SqlalchemyCollectd
