import SqlalchemyCollectd.Connmon.Delivery

/-!
# SqlalchemyCollectd.Connmon.Ageing

How rows of the monitor grow old.

Twice a second the monitor goes over the rows of the programs. It removes those that
have not been updated for five intervals and sets the counts of those that are two
intervals behind to zero (`processHostprogs_ok`). The rows of the hosts are not gone
over at all: a host that has stopped sending keeps its counts and is shown as
connected for good (`rows_retired_iff`).
-/

namespace SqlalchemyCollectd

namespace HostProg

/-- What a message leaves of a row, whether its updater raises or not. -/
def received (m : Message Number) (hostprog : HostProg) : HostProg :=
  match receive m hostprog with
  | .ok _ hostprog => hostprog
  | .error _ hostprog => hostprog

theorem received_of_not_mem {m : Message Number} (h : m.typeInstance ∉ statistics)
    (row : HostProg) : row.received m = row := by
  rw [received, receive_of_not_mem h]

/-- A message without values raises before anything is written. -/
theorem received_of_nil {m : Message Number} (h : m.values = []) (row : HostProg) :
    row.received m = row := by
  unfold received receive
  rw [h]
  cases updater? m with
  | none => rfl
  | some updater => rfl

/-- What a message about anything but checkouts leaves of a row. -/
theorem received_of_modify {m : Message Number} {update : Number → HostProg → HostProg}
    (hupdater : updater? m = some fun value => modify (update value)) {value : Number}
    {rest : List Number} (hvalues : m.values = value :: rest) (row : HostProg) :
    row.received m = { update value row with interval := m.interval, lastTime := m.time } := by
  rw [received, receive, hupdater, hvalues]
  rfl

/-- What a message about checkouts leaves of a row. -/
theorem received_checkouts {m : Message Number}
    (hupdater : updater? m = some (updateTotalCheckouts m.time m.interval)) (row : HostProg) :
    ∃ total growth clock rate interval time, row.received m =
      { row with
        totalCheckouts := total, intervalCheckouts := growth, lastTotalCheckoutTime := clock
        checkoutsPerSecond := rate, interval := interval, lastTime := time } := by
  cases hvalues : m.values with
  | nil =>
      rw [received_of_nil hvalues]
      exact ⟨_, _, _, _, _, _, rfl⟩
  | cons value rest =>
      obtain ⟨total, growth, clock, rate, hframe⟩ :=
        updateTotalCheckouts_frame m.time m.interval value row
      rw [received, receive_checkouts hupdater hvalues]
      cases hupdate : updateTotalCheckouts m.time m.interval value row with
      | ok _ row' =>
          rw [hupdate] at hframe
          obtain rfl := hframe
          exact ⟨_, _, _, _, _, _, rfl⟩
      | error e row' =>
          rw [hupdate] at hframe
          obtain rfl := hframe
          exact ⟨_, _, _, _, _, _, rfl⟩

/-- A message does not change whose row it is. -/
theorem names_received (m : Message Number) (row : HostProg) :
    (row.received m).hostname = row.hostname ∧ (row.received m).progname = row.progname := by
  by_cases hfield : m.typeInstance ∈ statistics
  · obtain ⟨update, hupdate⟩ | ⟨-, hupdater⟩ := updater?_cases hfield
    · cases hvalues : m.values with
      | nil =>
          rw [received_of_nil hvalues]
          exact ⟨rfl, rfl⟩
      | cons value rest =>
          rw [received, hupdate.receive_eq hvalues]
          exact ⟨hupdate.hostname value row, hupdate.progname value row⟩
    · obtain ⟨_, _, _, _, _, _, hreceived⟩ := received_checkouts hupdater row
      rw [hreceived]
      exact ⟨rfl, rfl⟩
  · rw [received_of_not_mem hfield]
    exact ⟨rfl, rfl⟩

/-- What a pass makes of a row. -/
def aged (now : ℚ) (row : HostProg) : Option HostProg :=
  if row.interval * 5 < now - row.lastTime then none
  else if row.interval * 2 < now - row.lastTime then some row.killProcesses
  else some row

theorem aged_eq_some {now : ℚ} {row row' : HostProg} (h : aged now row = some row') :
    now - row.lastTime ≤ 5 * row.interval ∧
      (now - row.lastTime ≤ 2 * row.interval ∧ row' = row ∨
        2 * row.interval < now - row.lastTime ∧ row' = row.killProcesses) := by
  unfold aged at h
  split_ifs at h with hgone hstale
  · cases h
    exact ⟨by linarith, .inr ⟨by linarith, rfl⟩⟩
  · cases h
    exact ⟨by linarith, .inl ⟨by linarith, rfl⟩⟩

theorem aged_of_le {now : ℚ} {row : HostProg} (hold : now - row.lastTime ≤ 5 * row.interval)
    (hfresh : now - row.lastTime ≤ 2 * row.interval) : aged now row = some row := by
  rw [aged, if_neg (by linarith), if_neg (by linarith)]

/-- The three counts are there and equal 0. -/
structure Idle (row : HostProg) : Prop where
  processes : ∃ count, row.processCount = some count ∧ count.pyEq 0
  connections : ∃ count, row.connectionCount = some count ∧ count.pyEq 0
  checkouts : ∃ count, row.checkoutCount = some count ∧ count.pyEq 0

theorem idle_killProcesses (row : HostProg) : row.killProcesses.Idle := by
  have hzero : Number.pyEq 0 0 := ⟨rfl, by simp [Number.value?]⟩
  exact ⟨⟨0, rfl, hzero⟩, ⟨0, rfl, hzero⟩, ⟨0, rfl, hzero⟩⟩

theorem Idle.not_isConnected {row : HostProg} (h : row.Idle) : ¬row.isConnected := by
  obtain ⟨count, hcount, hzero, -⟩ := h.processes
  simp [isConnected, hcount, hzero]

end HostProg

namespace Stat

open HostProg

/-! ### The state after an event -/

theorem row?_message (m : Message Number) (st : Stat) (hostname : String)
    (progname : Option String) :
    (step st (.message m)).row? hostname progname =
      if (hostname, progname) = addressee m then
        some ((st.found m.host (rowName m.pluginInstance)).received m)
      else st.row? hostname progname := by
  obtain ⟨made, hupdate, hrows, -⟩ := update_eq m st
  rw [step, hupdate, onRow, received]
  cases HostProg.receive m (st.found m.host (rowName m.pluginInstance)) with
  | ok _ row => exact hrows row hostname progname
  | error e row => exact hrows row hostname progname

/-- Every row is held under its own names. -/
def Keyed (st : Stat) : Prop :=
  ∀ hostname progname, ∀ row ∈ st.row? hostname progname,
    row.hostname = hostname ∧ row.progname = progname

/-- One row of a pass, held under its own names. -/
theorem ageHostprog_ok (now : ℚ) {st : Stat} {key : String × String} {row : HostProg}
    (hheld : st.hostprogs.get? key = some row)
    (hnames : row.hostname = key.1 ∧ row.progname = some key.2) :
    ∃ st', ageHostprog now key row st = .ok () st' ∧ st'.hosts = st.hosts ∧
      ∀ k, st'.hostprogs.get? k = if k = key then aged now row else st.hostprogs.get? k := by
  unfold ageHostprog aged
  by_cases hgone : row.interval * 5 < now - row.lastTime
  · have hkey : (row.hostname, key.2) = key := Prod.ext hnames.1 rfl
    have hmem : key ∈ st.hostprogs.keys := by
      rw [OrderedDict.mem_keys_iff, hheld]
      rfl
    refine ⟨{ st with hostprogs := st.hostprogs.erase key }, ?_, rfl, fun k => ?_⟩
    · simp only [if_pos hgone, delHostprog, hnames.2, hkey, if_pos hmem]
    · rw [if_pos hgone]
      exact OrderedDict.get?_erase ..
  · by_cases hstale : row.interval * 2 < now - row.lastTime
    · refine ⟨{ st with hostprogs := st.hostprogs.set key row.killProcesses }, ?_, rfl,
        fun k => ?_⟩
      · simp only [if_neg hgone, if_pos hstale]
        rfl
      · rw [if_neg hgone, if_pos hstale]
        exact OrderedDict.get?_set ..
    · refine ⟨st, ?_, rfl, fun k => ?_⟩
      · simp only [if_neg hgone, if_neg hstale]
        rfl
      · rw [if_neg hgone, if_neg hstale]
        split
        · rename_i hk
          rw [hk, hheld]
        · rfl

/-- The loop over rows, each of which is held under its own names. -/
theorem ageHostprogs_ok (now : ℚ) {held : List ((String × String) × HostProg)}
    (hnodup : (held.map Prod.fst).Nodup) {st : Stat}
    (hheld : ∀ e ∈ held, st.hostprogs.get? e.1 = some e.2 ∧
      e.2.hostname = e.1.1 ∧ e.2.progname = some e.1.2) :
    ∃ st', held.forM (fun e => ageHostprog now e.1 e.2) st = .ok () st' ∧ st'.hosts = st.hosts ∧
      ∀ k, st'.hostprogs.get? k =
        if k ∈ held.map Prod.fst then (st.hostprogs.get? k).bind (aged now)
        else st.hostprogs.get? k := by
  induction held generalizing st with
  | nil => exact ⟨st, rfl, rfl, fun k => rfl⟩
  | cons e held ih =>
      rw [List.map_cons, List.nodup_cons] at hnodup
      obtain ⟨hget, hnames⟩ := hheld e List.mem_cons_self
      obtain ⟨mid, hmid, hhosts, hrows⟩ := ageHostprog_ok now hget hnames
      -- the rows still to come are as they were
      have hrest : ∀ e' ∈ held, mid.hostprogs.get? e'.1 = some e'.2 ∧
          e'.2.hostname = e'.1.1 ∧ e'.2.progname = some e'.1.2 := by
        intro e' he'
        have hne : e'.1 ≠ e.1 := fun heq => hnodup.1 (heq ▸ List.mem_map_of_mem he')
        rw [hrows, if_neg hne]
        exact hheld e' (List.mem_cons_of_mem e he')
      obtain ⟨st', hst', hhosts', hrows'⟩ := ih hnodup.2 hrest
      refine ⟨st', ?_, hhosts'.trans hhosts, fun k => ?_⟩
      · show EStateM.bind (ageHostprog now e.1 e.2) (fun _ => held.forM _) st = _
        rw [EStateM.bind, hmid]
        exact hst'
      · rw [hrows', hrows, List.map_cons]
        by_cases hk : k = e.1
        · subst hk
          rw [if_neg hnodup.1, if_pos rfl, if_pos List.mem_cons_self, hget, Option.bind_some]
        · simp only [List.mem_cons, hk, false_or, if_false]

/-- **A pass** ages the rows of the programs and leaves those of the hosts alone. -/
theorem processHostprogs_ok {st : Stat} (h : st.Keyed) (now : ℚ) :
    ∃ st', processHostprogs now st = .ok () st' ∧
      (∀ hostname, st'.row? hostname none = st.row? hostname none) ∧
      ∀ hostname progname, st'.row? hostname (some progname) =
        (st.row? hostname (some progname)).bind (aged now) := by
  have hheld : ∀ e ∈ st.hostprogs.items, st.updateHostStats.hostprogs.get? e.1 = some e.2 ∧
      e.2.hostname = e.1.1 ∧ e.2.progname = some e.1.2 := by
    intro ⟨⟨hostname, progname⟩, row⟩ he
    have hget := OrderedDict.mem_items_iff.mp he
    exact ⟨hget, h hostname (some progname) row hget⟩
  obtain ⟨st', hst', hhosts, hrows⟩ := ageHostprogs_ok now st.hostprogs.keys_nodup hheld
  refine ⟨st', hst', fun hostname => congrArg (OrderedDict.get? · hostname) hhosts,
    fun hostname progname => ?_⟩
  refine (hrows (hostname, progname)).trans ?_
  split
  · rfl
  · rename_i hk
    have hnone := OrderedDict.not_mem_keys_iff.mp hk
    show st.hostprogs.get? _ = Option.bind (st.hostprogs.get? _) _
    rw [hnone]
    rfl

theorem row?_pass {st : Stat} (h : st.Keyed) (now : ℚ) :
    (∀ hostname, (step st (.pass now)).row? hostname none = st.row? hostname none) ∧
      ∀ hostname progname, (step st (.pass now)).row? hostname (some progname) =
        (st.row? hostname (some progname)).bind (aged now) := by
  obtain ⟨st', hst', hrows⟩ := processHostprogs_ok h now
  have hstep : step st (.pass now) = st' := by
    rw [step, hst']
  rw [hstep]
  exact hrows

/-- A row that is there after a pass was there before it, with its counts or without. -/
theorem exists_of_row?_pass {st : Stat} (h : st.Keyed) {now : ℚ} {hostname : String}
    {progname : Option String} {row : HostProg}
    (hrow : (st.step (.pass now)).row? hostname progname = some row) :
    ∃ old, st.row? hostname progname = some old ∧ (row = old ∨ row = old.killProcesses) := by
  obtain ⟨hhosts, hprogs⟩ := row?_pass h now
  cases progname with
  | none => exact ⟨row, hhosts hostname ▸ hrow, Or.inl rfl⟩
  | some progname =>
      rw [hprogs] at hrow
      obtain ⟨old, hold, haged⟩ := Option.bind_eq_some_iff.mp hrow
      obtain ⟨-, ⟨-, heq⟩ | ⟨-, heq⟩⟩ := aged_eq_some haged
      · exact ⟨old, hold, Or.inl heq⟩
      · exact ⟨old, hold, Or.inr heq⟩

theorem Keyed.step {st : Stat} (h : st.Keyed) (event : Event) : (st.step event).Keyed := by
  intro hostname progname row hrow
  cases event with
  | message m =>
      rw [Option.mem_def, row?_message] at hrow
      split at hrow
      · rename_i hname
        obtain ⟨rfl, rfl⟩ := Prod.mk.inj hname
        rw [← Option.some.inj hrow, (names_received ..).1, (names_received ..).2]
        unfold found
        cases hfound : st.row? m.host (rowName m.pluginInstance) with
        | none => exact ⟨rfl, rfl⟩
        | some old => exact h _ _ old hfound
      · exact h hostname progname row hrow
  | pass now =>
      obtain ⟨old, hold, rfl | rfl⟩ := exists_of_row?_pass h hrow
      · exact h hostname progname _ hold
      · exact h hostname progname old hold

theorem run_append (events : List Event) (event : Event) :
    run (events ++ [event]) = (run events).step event := by
  rw [run, List.foldl_append]
  rfl

theorem keyed_run (events : List Event) : (run events).Keyed := by
  induction events using List.reverseRecOn with
  | nil =>
      rintro hostname (_ | progname) row hrow <;> cases hrow
  | append_singleton events event ih =>
      rw [run_append]
      exact ih.step event

/-- **What holds of every row** in a run: what holds of a new one, and is lost neither
with a message nor with the counts. -/
theorem rows_run {P : HostProg → Prop} {events : List Event}
    (hnew : ∀ hostname progname, P { hostname, progname })
    (hreceived : ∀ m, .message m ∈ events → ∀ row, P row → P (row.received m))
    (hkilled : ∀ row, P row → P row.killProcesses) (hostname : String)
    (progname : Option String) : ∀ row ∈ (run events).row? hostname progname, P row := by
  induction events using List.reverseRecOn generalizing hostname progname with
  | nil =>
      intro row hrow
      cases progname <;> cases hrow
  | append_singleton events event ih =>
      have hbefore := ih fun m hm => hreceived m (List.mem_append_left _ hm)
      intro row hrow
      rw [Option.mem_def, run_append] at hrow
      cases event with
      | message m =>
          rw [row?_message] at hrow
          split at hrow
          · obtain rfl := Option.some.inj hrow
            refine hreceived m (List.mem_append_right _ List.mem_cons_self) _ ?_
            -- the row that is found is one from before, or new
            unfold found
            cases hfound : (run events).row? m.host (rowName m.pluginInstance) with
            | none => exact hnew _ _
            | some old => exact hbefore _ _ old hfound
          · exact hbefore hostname progname row hrow
      | pass now =>
          obtain ⟨old, hold, rfl | rfl⟩ := exists_of_row?_pass (keyed_run events) hrow
          · exact hbefore hostname progname _ hold
          · exact hkilled old (hbefore hostname progname old hold)

/-! ### Retired rows -/

/-- A pass at `now` has retired the stale rows and left the others alone. -/
structure Retired (now : ℚ) (before after : Stat) : Prop where
  removed : ∀ hostname progname, ∀ row ∈ after.row? hostname progname, 0 < row.interval →
    now - row.lastTime ≤ 5 * row.interval
  killed : ∀ hostname progname, ∀ row ∈ after.row? hostname progname, 0 < row.interval →
    2 * row.interval < now - row.lastTime → row.Idle ∧ ¬row.isConnected
  kept : ∀ hostname progname, ∀ row ∈ before.row? hostname progname,
    now - row.lastTime ≤ 2 * row.interval → after.row? hostname progname = some row

/-- No host is two intervals behind, unless it is idle and has not been so for five; and
no row of a program comes from the future with a negative interval. -/
structure Current (now : ℚ) (st : Stat) : Prop where
  hosts : ∀ hostname, ∀ row ∈ st.row? hostname none, 0 < row.interval →
    2 * row.interval < now - row.lastTime → now - row.lastTime ≤ 5 * row.interval ∧ row.Idle
  hostprogs : ∀ hostname progname, ∀ row ∈ st.row? hostname (some progname),
    now - row.lastTime ≤ 2 * row.interval → now - row.lastTime ≤ 5 * row.interval

/-- **When one pass retires** what it should. -/
theorem retired_iff {st : Stat} (h : st.Keyed) (now : ℚ) :
    Retired now st (st.step (.pass now)) ↔ Current now st := by
  obtain ⟨hhosts, hprogs⟩ := row?_pass h now
  constructor
  · intro hretired
    constructor
    · intro hostname row hrow hinterval hstale
      have hafter : row ∈ (st.step (.pass now)).row? hostname none := hhosts hostname ▸ hrow
      exact ⟨hretired.removed _ _ row hafter hinterval,
        (hretired.killed _ _ row hafter hinterval hstale).1⟩
    · intro hostname progname row hrow hfresh
      have hkept := hretired.kept _ _ row hrow hfresh
      rw [hprogs, hrow, Option.bind_some] at hkept
      exact (aged_eq_some hkept).1
  · intro hcurrent
    refine ⟨?_, ?_, ?_⟩
    · rintro hostname (_ | progname) row hrow hinterval
      · by_cases hstale : 2 * row.interval < now - row.lastTime
        · exact (hcurrent.hosts hostname row (hhosts hostname ▸ hrow) hinterval hstale).1
        · linarith
      · rw [hprogs] at hrow
        obtain ⟨old, -, haged⟩ := Option.bind_eq_some_iff.mp hrow
        obtain ⟨hle, ⟨-, rfl⟩ | ⟨-, rfl⟩⟩ := aged_eq_some haged
        · exact hle
        · exact hle
    · rintro hostname (_ | progname) row hrow hinterval hstale
      · have hidle := (hcurrent.hosts hostname row (hhosts hostname ▸ hrow) hinterval hstale).2
        exact ⟨hidle, hidle.not_isConnected⟩
      · rw [hprogs] at hrow
        obtain ⟨old, -, haged⟩ := Option.bind_eq_some_iff.mp hrow
        obtain ⟨-, ⟨hfresh, rfl⟩ | ⟨-, rfl⟩⟩ := aged_eq_some haged
        · linarith
        · exact ⟨idle_killProcesses old, (idle_killProcesses old).not_isConnected⟩
    · rintro hostname (_ | progname) row hrow hfresh
      · exact (hhosts hostname).trans hrow
      · rw [hprogs, hrow, Option.bind_some]
        exact aged_of_le (hcurrent.hostprogs hostname progname row hrow hfresh) hfresh

/-- **When stale rows are retired.** In every run, all passes retire what they should
exactly when each of them finds the rows of the hosts current. -/
theorem rows_retired_iff (events : List Event) :
    (∀ before now, before ++ [.pass now] <+: events →
      Retired now (run before) (run (before ++ [.pass now]))) ↔
    ∀ before now, before ++ [.pass now] <+: events → Current now (run before) := by
  refine forall_congr' fun before => forall_congr' fun now => imp_congr_right fun _ => ?_
  rw [← retired_iff (keyed_run before), run_append]

/-- A host with three processes goes silent, and a pass comes much later. -/
def silentHost : List Event :=
  [.message ⟨"count", "numprocs", "sqlalchemy", "host", "h1", 1000, 10, [.float (Float.nearest 3)]⟩,
    .pass 2000]

/-- The host is still displayed, as connected. -/
theorem rows_kept_silentHost :
    ¬Retired 2000 (run (silentHost.take 1)) (run silentHost) ∧
      ((run silentHost).hosts.get? "h1").map
          (fun row => (row.lastTime, row.interval, row.processCount, row.isConnected)) =
        some (1000, 10, some (.float (Float.nearest 3)), true) := by
  have hrow : ((run silentHost).hosts.get? "h1").map
      (fun row => (row.lastTime, row.interval, row.processCount, row.isConnected)) =
        some (1000, 10, some (.float (Float.nearest 3)), true) := by
    decide +kernel
  refine ⟨fun h => ?_, hrow⟩
  obtain ⟨row, hget, hfields⟩ := Option.map_eq_some_iff.mp hrow
  simp only [Prod.mk.injEq] at hfields
  obtain ⟨htime, hinterval, -, -⟩ := hfields
  have hle := h.removed "h1" none row hget
  norm_num [htime, hinterval] at hle

end Stat

end SqlalchemyCollectd
