import SqlalchemyCollectd.Client.Reports
import SqlalchemyCollectd.Server.Aggregation
import SqlalchemyCollectd.Server.Service

/-!
# SqlalchemyCollectd.Server.Accounting

From the counters of the processes to the values that collectd gets.

Processes send reports, the network hands over some of the datagrams, the listener takes
them one after the other and collectd asks for a summary in between. As long as the
datagrams of one process arrive in the order in which they were sent, a summary is an
account of the processes that have reported lately: each of its values is the sum of what
their `CollectionTarget`s counted when they did so last (`accounts`).
-/

namespace SqlalchemyCollectd

open Receiver Service Struct

/-- A datagram of a report. -/
abbrev Dispatch := Report × InternalType

namespace Dispatch

/-- The last report of a process about a type, of those that have arrived. -/
def lastReport (τ : InternalType) (k : ProcessKey) (dispatches : List Dispatch) : Option Report :=
  (dispatches.filterMap fun p => if p.2 = τ ∧ p.1.key = k then some p.1 else none).getLast?

/-- A process has reported lately. -/
def Reporting (dispatches : List Dispatch) (τ : InternalType) (t : ℚ) (k : ProcessKey) : Prop :=
  ∃ r, lastReport τ k dispatches = some r ∧ t - window (2 * 2) ≤ pyInt r.time

/-- What a process counted for a field of a type when it reported last. -/
def lastCount (dispatches : List Dispatch) (τ : InternalType) (i : ℕ) (k : ProcessKey) : ℕ :=
  ((lastReport τ k dispatches).map fun r => (r.counts τ).getD i 0).getD 0

/-- The values of a summary for a type, as an account of the processes. -/
structure Accounts (dispatches : List Dispatch) (t : ℚ) (τ : InternalType) (g : Grouping)
    (values : List (Values Number)) : Prop where
  /-- The row of a process that has reported lately has a value for each field, the sum
  over all such processes of the row. -/
  row : ∀ k, Reporting dispatches τ t k →
    ∃ (procs : List ProcessKey) (interval : ℚ) (sums : ℕ → Number),
      procs.Pairwise (· < ·) ∧
      (∀ k', k' ∈ procs ↔ Reporting dispatches τ t k' ∧ g.row k' = g.row k) ∧
      values.filter (fun v => v.host = some k.hostname ∧
        v.pluginInstance = some (g.programOf k)) =
          τ.toType.names.mapIdx (fun i field =>
            rowValue t interval τ g "sqlalchemy" k field (sums i)) ∧
      ∀ i, (procs.map (lastCount dispatches τ i)).sum < 2 ^ 53 →
        (sums i).Counts (procs.map (lastCount dispatches τ i)).sum
  /-- There is no other row. -/
  only : ∀ v ∈ values, ∃ k, Reporting dispatches τ t k ∧ v.host = some k.hostname ∧
    v.pluginInstance = some (g.programOf k)

/-- What arrives at the server until `t`: datagrams of reports that fit, those of one
process in the order in which they were sent. -/
structure Feeds (t : ℚ) (events : List (Mailbox.Event Item ReadStep))
    (dispatches : List Dispatch) : Prop where
  arrivals : Mailbox.arrivals events = dispatches.map fun p => some (p.1.datagram p.2)
  kinds : ∀ p ∈ dispatches, p.2 ≠ .process
  fits : ∀ p ∈ dispatches, p.1.Fits
  times : ∀ p ∈ dispatches, p.1.time ≤ t
  reads : ∀ now, .begin now ∈ Mailbox.actions events → now ≤ t
  steady : dispatches.Pairwise fun p p' =>
    p.2 = p'.2 → p.1.key = p'.1.key → p.1.time ≤ p'.1.time

/-! ### The operations of the receiver -/

/-- The operations that have led to the state tell of the dispatches. -/
structure Tells (t : ℚ) (dispatches : List Dispatch) (ops : List (Op Number))
    (s : Receiver Number) : Prop where
  reaches : Reaches ops s
  messages : ops.filterMap Op.message? = dispatches.map fun p => p.1.message p.2
  reads : ∀ now, .summarize now ∈ ops → now ≤ t
  kinds : ∀ p ∈ dispatches, p.2 ≠ .process
  fits : ∀ p ∈ dispatches, p.1.Fits
  times : ∀ p ∈ dispatches, p.1.time ≤ t
  steady : dispatches.Pairwise fun p p' =>
    p.2 = p'.2 → p.1.key = p'.1.key → p.1.time ≤ p'.1.time

theorem messageOf_datagram {p : Dispatch} (hfits : p.1.Fits) (hkind : p.2 ≠ .process) :
    messageOf InternalType.types (some (p.1.datagram p.2)) = some (p.1.message p.2) :=
  messageOf_eq_some_iff.mpr ⟨_, rfl, (Report.unpackBytes_datagram hfits hkind).2⟩

section Tells

variable {t : ℚ} {dispatches : List Dispatch} {ops : List (Op Number)} {s : Receiver Number}

theorem Tells.exists_dispatch (h : Tells t dispatches ops s) {m : Message Number}
    (hm : .setStats m ∈ ops) : ∃ p ∈ dispatches, p.1.message p.2 = m := by
  have hmem : m ∈ ops.filterMap Op.message? := List.mem_filterMap.mpr ⟨_, hm, rfl⟩
  rw [h.messages] at hmem
  exact List.mem_map.mp hmem

/-- The last message of a process is that of its last report. -/
theorem Tells.lastMessage_eq (h : Tells t dispatches ops s) (τ : InternalType) (k : ProcessKey) :
    lastMessage τ k ops = (lastReport τ k dispatches).map fun r => r.message τ := by
  have hmessages : messagesOf τ k ops = (ops.filterMap Op.message?).filterMap fun m =>
      if m.type = τ.name ∧ m.key = k then some m else none := by
    rw [messagesOf, List.filterMap_filterMap]
    refine List.filterMap_congr fun op _ => ?_
    cases op <;> rfl
  rw [lastMessage, hmessages, h.messages, List.filterMap_map, lastReport, ← List.getLast?_map,
    List.map_filterMap]
  congr 1
  refine List.filterMap_congr fun p _ => ?_
  rw [Function.comp_apply]
  by_cases hp : p.2 = τ ∧ p.1.key = k
  · obtain ⟨rfl, rfl⟩ := hp
    rw [if_pos ⟨rfl, rfl⟩, if_pos ⟨rfl, rfl⟩, Option.map_some]
  · have hnot : ¬((p.1.message p.2).type = τ.name ∧ (p.1.message p.2).key = k) :=
      fun hm => hp ⟨InternalType.name_injective hm.1, hm.2⟩
    rw [if_neg hp, if_neg hnot, Option.map_none]

theorem Tells.live_iff (h : Tells t dispatches ops s) {τ : InternalType} {k : ProcessKey} :
    Live ops τ t k ↔ Reporting dispatches τ t k := by
  unfold Live Reporting
  rw [h.lastMessage_eq]
  constructor
  · rintro ⟨m, hm, htime⟩
    obtain ⟨r, hr, rfl⟩ := Option.map_eq_some_iff.mp hm
    exact ⟨r, hr, htime⟩
  · rintro ⟨r, hr, htime⟩
    exact ⟨r.message τ, by rw [hr, Option.map_some], htime⟩

theorem Tells.orderly (h : Tells t dispatches ops s) : Orderly "sqlalchemy" t ops where
  types m hm := by
    obtain ⟨p, hp, rfl⟩ := h.exists_dispatch hm
    have hkind := h.kinds p hp
    cases hτ : p.2 with
    | pool => exact Or.inl rfl
    | totals => exact Or.inr rfl
    | process => exact absurd hτ hkind
  times m hm := by
    obtain ⟨p, hp, rfl⟩ := h.exists_dispatch hm
    have hnonneg := (h.fits p hp).time.1
    have hfloor : (pyInt p.1.time : ℚ) ≤ p.1.time := by
      rw [pyInt, if_pos hnonneg]
      exact Int.floor_le _
    have hpos : (0 : ℚ) ≤ (pyInt p.1.time : ℚ) := by exact_mod_cast pyInt_nonneg hnonneg
    exact ⟨hpos, hfloor.trans (h.times p hp)⟩
  intervals m hm := by
    obtain ⟨p, -, rfl⟩ := h.exists_dispatch hm
    norm_num [Report.message]
  complete m τ hm htype := by
    obtain ⟨p, hp, rfl⟩ := h.exists_dispatch hm
    obtain rfl : p.2 = τ := InternalType.name_injective htype
    rw [Report.message, List.length_zipWith, List.length_map,
      Report.length_counts (h.kinds p hp), CollectdType.length_types, Nat.min_self]
  plugins m hm := by
    obtain ⟨p, -, rfl⟩ := h.exists_dispatch hm
    rfl
  summaries := h.reads
  steady := by
    have hmessages : (ops.filterMap Op.message?).Pairwise fun m m' =>
        m.type = m'.type → m.key = m'.key → m.time ≤ m'.time ∧ m.interval = m'.interval := by
      rw [h.messages, List.pairwise_map]
      refine h.steady.imp fun {p p'} hsteady htype hkey => ⟨?_, rfl⟩
      have hle := pyInt_mono (hsteady (InternalType.name_injective htype) hkey)
      show (pyInt p.1.time : ℚ) ≤ (pyInt p'.1.time : ℚ)
      exact_mod_cast hle
    rw [List.pairwise_filterMap] at hmessages
    refine hmessages.imp fun {a b} hsteady m m' ha hb => ?_
    subst ha hb
    exact hsteady m rfl m' rfl

/-- One field of the last message of a process. -/
theorem Tells.counts_field (h : Tells t dispatches ops s) {τ : InternalType} (hτ : τ ≠ .process)
    (i : ℕ) (k : ProcessKey) :
    match (lastMessage τ k ops).bind fun m => m.values[i]? with
    | some x => x.Counts (lastCount dispatches τ i k)
    | none => lastCount dispatches τ i k = 0 := by
  rw [h.lastMessage_eq, lastCount]
  cases lastReport τ k dispatches with
  | none => rfl
  | some r => exact Report.counts_message hτ r i

/-- A summary does not raise. -/
theorem Tells.raised_summarize (h : Tells t dispatches ops s) :
    (summarize t s).1.raised = none :=
  h.orderly.raised_summarize h.reaches

/-- **The rows of a summary account for the processes.** -/
theorem Tells.meets (h : Tells t dispatches ops s) {τ : InternalType} (hτ : τ ≠ .process)
    (g : Grouping) : Accounts dispatches t τ g (passValues t τ g (s.swept t τ)) := by
  have hreports := reports_passValues g h.orderly h.reaches hτ
  refine ⟨fun k hk => ?_, fun v hv => ?_⟩
  · obtain ⟨procs, interval, hsorted, hprocs, hvalues⟩ := hreports.row k (h.live_iff.mpr hk)
    refine ⟨procs, interval, _, hsorted, ?_, hvalues, fun i hsmall => ?_⟩
    · intro k'
      rw [hprocs, h.live_iff]
    · exact counts_pySum (fun k' _ => h.counts_field hτ i k') hsmall
  · obtain ⟨k, hk, hv⟩ := hreports.only v hv
    exact ⟨k, h.live_iff.mp hk, hv⟩

end Tells

/-- The operations of a server that has been fed. -/
theorem Feeds.exists_tells {t : ℚ} {events : List (Mailbox.Event Item ReadStep)}
    {dispatches : List Dispatch} {s : Mailbox.State ServerPlugin Item}
    (hfeeds : Feeds t events dispatches) (h : ServerPlugin.Serves events s) :
    ∃ (arrived waiting : List Dispatch) (ops : List (Op Number)),
      dispatches = arrived ++ waiting ∧
      s.queue = waiting.map (fun p => some (p.1.datagram p.2)) ∧ s.status ≠ .stuck ∧
      Tells t arrived ops s.state.receiver := by
  obtain ⟨served, sequence, hcomes⟩ := exists_comes h
  obtain ⟨ops, hops, hreaches⟩ := ServerPlugin.exists_history sequence
  have hstate : s.state = ServerPlugin.replay sequence := hcomes.state
  obtain ⟨arrived, waiting, rfl, hserved, hqueue⟩ :=
    List.map_eq_append_iff.mp (hfeeds.arrivals.symm.trans hcomes.arrivals)
  have hmem : ∀ p ∈ arrived, p ∈ arrived ++ waiting := fun p hp => List.mem_append_left _ hp
  refine ⟨arrived, waiting, ops, rfl, hqueue.symm, ?_, hstate ▸ hreaches, ?_, ?_,
    fun p hp => hfeeds.kinds p (hmem p hp), fun p hp => hfeeds.fits p (hmem p hp),
    fun p hp => hfeeds.times p (hmem p hp), (List.pairwise_append.mp hfeeds.steady).1⟩
  -- no datagram of a report stalls the unpacker
  · rw [ne_eq, hcomes.stuck, ← hserved]
    rintro ⟨buf, hbuf, hstalls⟩
    obtain ⟨p, hp, heq⟩ := List.mem_map.mp hbuf
    obtain rfl := Option.some.inj heq
    have hpacked := (Report.unpackBytes_datagram (hfeeds.fits p (hmem p hp))
      (hfeeds.kinds p (hmem p hp))).1
    exact not_stalls_of_packValues hpacked hstalls
  · rw [hops.messages, hcomes.messages, ← hserved, List.filterMap_map, ← List.filterMap_eq_map]
    refine List.filterMap_congr fun p hp => ?_
    exact messageOf_datagram (hfeeds.fits p (hmem p hp)) (hfeeds.kinds p (hmem p hp))
  · intro now hnow
    exact hfeeds.reads now (hcomes.actions ▸ hops.times now hnow)

/-- **The server accounts for the processes.** However the datagrams of different
processes come in, with some of them lost and some repeated at once, and whenever the
listener takes them between the steps of collectd's reads: no datagram of a report that
fits keeps the listener, and a summary at `t`, which no report and no read is past, does
not raise. What it says of a type of the client are the sums of what the processes
counted, program by program and then host by host, over those whose last report that has
been taken is recent; sums below `2 ^ 53` are exact. -/
theorem accounts {t : ℚ} {events : List (Mailbox.Event Item ReadStep)}
    {dispatches : List Dispatch} {s : Mailbox.State ServerPlugin Item}
    (h : ServerPlugin.Serves events s) (hfeeds : Feeds t events dispatches) :
    ∃ arrived waiting : List Dispatch,
      dispatches = arrived ++ waiting ∧
      s.queue = waiting.map (fun p => some (p.1.datagram p.2)) ∧
      s.status ≠ .stuck ∧
      (summarize t s.state.receiver).1.raised = none ∧
      ∀ τ, τ = .pool ∨ τ = .totals → ∃ byProgram byHost : List (Values Number),
        (summarize t s.state.receiver).1.values.filter (fun v => OfType τ v) =
          byProgram ++ byHost ∧
        Accounts arrived t τ .byProgname byProgram ∧ Accounts arrived t τ .byHostname byHost := by
  obtain ⟨arrived, waiting, ops, hsplit, hqueue, hstatus, htells⟩ := hfeeds.exists_tells h
  refine ⟨arrived, waiting, hsplit, hqueue, hstatus, htells.raised_summarize, fun τ hτ => ?_⟩
  have hτ : τ ≠ .process := by rcases hτ with rfl | rfl <;> decide
  exact ⟨_, _, filter_ofType htells.reaches.filed htells.raised_summarize τ,
    htells.meets hτ .byProgname, htells.meets hτ .byHostname⟩

/-- A report of a process of the program `web`. -/
def webReport (token : String) (totalCheckouts : ℕ) : Report where
  sender := ⟨"h1", "web", "localhost", 25827⟩
  target := { collectors := [1], totalCheckouts }
  time := 1000
  token := token

/-- Two processes; a read begins between their totals, and the last datagram has not been
taken yet. -/
def twoProcesses : List Dispatch :=
  [(webReport "1:aa" 3, .totals), (webReport "2:bb" 4, .totals), (webReport "2:bb" 4, .pool)]

def twoProcessesEvents : List (Mailbox.Event Item ReadStep) :=
  twoProcesses.map (fun p => .arrive (some (p.1.datagram p.2))) ++
    [.take, .act (.begin 1000), .act .resume, .take, .act .resume]

theorem fits_webReport (token : String) (htoken : Encodable token) (n : ℕ) (hn : n < 2 ^ 63) :
    (webReport token n).Fits where
  hostname := show Encodable "h1" by decide
  program := show Encodable "web" by decide
  token := htoken
  time := by norm_num [webReport]
  pool := by simp [Report.counts, webReport, CollectionTarget.numPools,
    CollectionTarget.numCheckedout, CollectionTarget.numCheckedin, CollectionTarget.numDetached,
    CollectionTarget.numConnections]
  totals := by simpa [Report.counts, webReport] using hn

theorem feeds_twoProcesses : Feeds 1001 twoProcessesEvents twoProcesses where
  arrivals := rfl
  kinds := by simp [twoProcesses]
  fits := by
    simp only [twoProcesses, List.forall_mem_cons]
    exact ⟨fits_webReport _ (by decide) _ (by norm_num),
      fits_webReport _ (by decide) _ (by norm_num),
      fits_webReport _ (by decide) _ (by norm_num), by simp⟩
  times := by norm_num [twoProcesses, webReport]
  reads := by
    rw [show Mailbox.actions twoProcessesEvents = [.begin 1000, .resume, .resume] from rfl]
    intro now hnow
    rw [show now = 1000 by simpa using hnow]
    norm_num
  steady := by simp [twoProcesses, webReport]

/-- What the summary says of their totals. -/
def sevenCheckouts : List (Option String × Option String × List Number) :=
  ["web", "host"].flatMap fun program =>
    [(program, "checkouts", [.int 7]), (program, "invalidated", [.int 0]),
      (program, "connects", [.int 0]), (program, "disconnects", [.int 0])]

theorem accounts_twoProcesses :
    ∃ (s : Mailbox.State ServerPlugin Item) (arrived waiting : List Dispatch),
      s.queue.length = 1 ∧
      (((summarize 1001 s.state.receiver).1.values.filter fun v => OfType .totals v).map fun v =>
        (v.pluginInstance, v.typeInstance, v.values)) = sevenCheckouts ∧
      twoProcesses = arrived ++ waiting ∧
      s.queue = waiting.map (fun p => some (p.1.datagram p.2)) ∧
      s.status ≠ .stuck ∧
      (summarize 1001 s.state.receiver).1.raised = none ∧
      ∀ τ, τ = .pool ∨ τ = .totals → ∃ byProgram byHost : List (Values Number),
        (summarize 1001 s.state.receiver).1.values.filter (fun v => OfType τ v) =
          byProgram ++ byHost ∧
        Accounts arrived 1001 τ .byProgname byProgram ∧
        Accounts arrived 1001 τ .byHostname byHost := by
  have hstate : (twoProcessesEvents.foldlM
      (Transition.guarded (Mailbox.step ServerPlugin.serve ServerPlugin.read) fun _ _ => True)
      { state := {} }).map (fun s => (s.queue.length,
        ((summarize 1001 s.state.receiver).1.values.filter fun v => OfType .totals v).map fun v =>
          (v.pluginInstance, v.typeInstance, v.values))) = some (1, sevenCheckouts) := by
    decide +kernel
  obtain ⟨s, hs, heq⟩ := Option.map_eq_some_iff.mp hstate
  obtain ⟨hlength, hvalues⟩ := Prod.mk.inj heq
  obtain ⟨arrived, waiting, haccounts⟩ := accounts (Transition.Run.of_exec hs) feeds_twoProcesses
  exact ⟨s, arrived, waiting, hlength, hvalues, haccounts⟩

end Dispatch

end SqlalchemyCollectd
