import SqlalchemyCollectd.Server.Emission

/-!
# SqlalchemyCollectd.Server.Aggregation

A summary counts every live process once, in whatever order messages arrive.

Processes are independent streams of messages with a fixed interval and times
that do not go backwards; between the streams the order is arbitrary. The
receiver may then refuse messages, but only messages that are stale for every
later summary. Seen from a time `t` that no operation has passed, the record of a
process is therefore its last message, accepted or not (`Orderly.visible`), and a
summary at `t` is a sum over last messages.
-/

namespace SqlalchemyCollectd

namespace Receiver

open TimeBucket

variable {α : Type}

/-! ### Streams of messages -/

/-- The messages of one process of one type, in order of arrival. -/
def messagesOf (τ : InternalType) (k : ProcessKey) (ops : List (Op α)) : List (Message α) :=
  ops.filterMap fun
    | .setStats m => if m.type = τ.name ∧ m.key = k then some m else none
    | .summarize _ => none

/-- The last message of a process. -/
def lastMessage (τ : InternalType) (k : ProcessKey) (ops : List (Op α)) : Option (Message α) :=
  (messagesOf τ k ops).getLast?

theorem lastMessage_append_setStats (τ : InternalType) (k : ProcessKey) (ops : List (Op α))
    (m : Message α) :
    lastMessage τ k (ops ++ [.setStats m]) =
      if m.type = τ.name ∧ m.key = k then some m else lastMessage τ k ops := by
  unfold lastMessage messagesOf
  rw [List.filterMap_append, List.filterMap_cons]
  by_cases h : m.type = τ.name ∧ m.key = k
  · simp [h]
  · simp [h]

theorem lastMessage_append_summarize (τ : InternalType) (k : ProcessKey) (ops : List (Op α))
    (timestamp : ℚ) :
    lastMessage τ k (ops ++ [.summarize timestamp]) = lastMessage τ k ops := by
  unfold lastMessage messagesOf
  rw [List.filterMap_append, List.filterMap_cons]
  simp

theorem lastMessage_mem {τ : InternalType} {k : ProcessKey} {ops : List (Op α)} {m : Message α}
    (h : lastMessage τ k ops = some m) : .setStats m ∈ ops ∧ m.type = τ.name ∧ m.key = k := by
  obtain ⟨op, hop, hm⟩ := List.mem_filterMap.mp (List.mem_of_getLast? h)
  cases op with
  | summarize timestamp => cases hm
  | setStats m' =>
      dsimp only at hm
      split at hm
      · rename_i hkey
        rw [← Option.some.inj hm]
        exact ⟨hop, hkey⟩
      · cases hm

/-- A process is live at `t` when `t` is within the window of its last message. -/
def Live (ops : List (Op α)) (τ : InternalType) (t : ℚ) (k : ProcessKey) : Prop :=
  ∃ m, lastMessage τ k ops = some m ∧ t - window (m.interval * 2) ≤ m.time

/-- Runs in which every process sends complete messages of the two types of the
client, with a fixed interval and times that do not go backwards, and nothing
happens after `t`. -/
structure Orderly (plugin : String) (t : ℚ) (ops : List (Op α)) : Prop where
  types : ∀ m, .setStats m ∈ ops →
    m.type = InternalType.pool.name ∨ m.type = InternalType.totals.name
  times : ∀ m, .setStats m ∈ ops → 0 ≤ m.time ∧ m.time ≤ t
  intervals : ∀ m, .setStats m ∈ ops → 0 < m.interval
  complete : ∀ m τ, .setStats m ∈ ops → m.type = InternalType.name τ →
    m.values.length = τ.toType.dbTemplate.length
  plugins : ∀ m, .setStats m ∈ ops → m.plugin = plugin
  summaries : ∀ timestamp, .summarize timestamp ∈ ops → timestamp ≤ t
  steady : ops.Pairwise fun a b => ∀ m m', a = .setStats m → b = .setStats m' →
    m.type = m'.type → m.key = m'.key → m.time ≤ m'.time ∧ m.interval = m'.interval

namespace Orderly

variable {plugin : String} {t : ℚ} {ops : List (Op α)}

/-- A prefix of an orderly run is orderly. -/
theorem init {op : Op α} (h : Orderly plugin t (ops ++ [op])) : Orderly plugin t ops where
  types m hm := h.types m (List.mem_append_left _ hm)
  times m hm := h.times m (List.mem_append_left _ hm)
  intervals m hm := h.intervals m (List.mem_append_left _ hm)
  complete m τ hm := h.complete m τ (List.mem_append_left _ hm)
  plugins m hm := h.plugins m (List.mem_append_left _ hm)
  summaries s hs := h.summaries s (List.mem_append_left _ hs)
  steady := (List.pairwise_append.mp h.steady).1

/-- The last message of a process is no later than its next one. -/
theorem steady_last {m m' : Message α} {τ : InternalType} {k : ProcessKey}
    (h : Orderly plugin t (ops ++ [.setStats m'])) (hlast : lastMessage τ k ops = some m)
    (htype : m'.type = τ.name) (hkey : m'.key = k) :
    m.time ≤ m'.time ∧ m.interval = m'.interval := by
  obtain ⟨hmem, hmtype, hmkey⟩ := lastMessage_mem hlast
  exact (List.pairwise_append.mp h.steady).2.2 _ hmem _ List.mem_cons_self m m' rfl rfl
    (hmtype.trans htype.symm) (hmkey.trans hkey.symm)

end Orderly

/-! ### The invariant of an orderly run -/

variable [Add α] [Zero α] [One α]

/-- No clock has passed `t`. -/
theorem Reaches.within {t : ℚ} {ops : List (Op α)} {s : Receiver α} (h : Reaches ops s)
    (htimes : ∀ m, .setStats m ∈ ops → 0 ≤ m.time ∧ m.time ≤ t)
    (hintervals : ∀ m, .setStats m ∈ ops → 0 < m.interval)
    (hsummaries : ∀ timestamp, .summarize timestamp ∈ ops → timestamp ≤ t)
    (σ : InternalType) : (s.buckets σ).Within t := by
  induction h generalizing σ with
  | nil => exact within_fresh t
  | @visits ops s s' now _ hvisits ih =>
      have hle := hsummaries now (List.mem_append_right _ List.mem_cons_self)
      exact hvisits.preserves (P := fun _ b => b.Within t) (fun _ _ hb => hb.visit hle)
        (ih (fun m hm => htimes m (List.mem_append_left _ hm))
          (fun m hm => hintervals m (List.mem_append_left _ hm))
          fun s hs => hsummaries s (List.mem_append_left _ hs)) σ
  | @setStats ops s _ m ih =>
      have ih := ih (fun m hm => htimes m (List.mem_append_left _ hm))
        (fun m hm => hintervals m (List.mem_append_left _ hm))
        fun s hs => hsummaries s (List.mem_append_left _ hs)
      have hmem : Op.setStats m ∈ ops ++ [.setStats m] :=
        List.mem_append_right _ List.mem_cons_self
      have hle := (htimes m hmem).2
      have ht := (htimes m hmem).1.trans hle
      have hinterval := (hintervals m hmem).le
      cases hτ : InternalType.ofName? m.type with
      | none =>
          rw [step_setStats_unknown hτ]
          exact ih σ
      | some τ =>
          have hstore : ∀ σ, ((s.storeState τ m).buckets σ).Within t := by
            intro σ
            rw [buckets_storeState]
            split
            · exact (ih σ).putState ht hle (by positivity) _ _
            · exact ih σ
          rw [step_setStats hτ]
          split
          · rw [buckets_countState]
            split
            · exact (hstore σ).putState ht hle (by positivity) _ _
            · exact hstore σ
          · exact hstore σ

/-- What a message leaves in the bucket of its type. -/
def recordOf (m : Message α) : Record (Message α) := ⟨m.time, m.interval * 2, m⟩

section Orderly

variable {plugin : String} {t : ℚ} {ops : List (Op α)} {s : Receiver α}

theorem Orderly.within (h : Orderly plugin t ops) (hs : Reaches ops s) (σ : InternalType) :
    (s.buckets σ).Within t :=
  hs.within h.times h.intervals h.summaries σ

/-- A refused message of an orderly run is stale for every later summary. -/
theorem not_fresh_of_refused {m : Message α} {τ : InternalType}
    (h : Orderly plugin t (ops ++ [.setStats m])) (hs : Reaches ops s)
    (hrefused : ¬s.AcceptsMessage τ m) : ¬(recordOf m).fresh t := by
  have hmem : Op.setStats m ∈ ops ++ [.setStats m] := List.mem_append_right _ List.mem_cons_self
  have hinterval : 0 ≤ m.interval * 2 := mul_nonneg (h.intervals m hmem).le zero_le_two
  have ht := (h.times m hmem).1.trans (h.times m hmem).2
  exact not_fresh_of_not_accepts hinterval ((h.init.within hs τ).lastTimestamp_le ht) hrefused m

/-- **What can be seen of a process is its last message.** -/
theorem Orderly.visible (h : Orderly plugin t ops) (hs : Reaches ops s) {τ : InternalType}
    (hτ : τ ≠ .process) (k : ProcessKey) :
    (s.buckets τ).visible t k =
      ((lastMessage τ k ops).map recordOf).filter fun r => r.fresh t := by
  induction hs with
  | nil => rfl
  | @visits ops s s' now _ hvisits ih =>
      have hle := h.summaries now (List.mem_append_right _ List.mem_cons_self)
      rw [lastMessage_append_summarize, ← ih h.init]
      exact hvisits.preserves (P := fun σ b => b.visible t k = (s.buckets σ).visible t k)
        (fun σ b hb => (visible_visit hle none b k).trans hb) (fun σ => rfl) τ
  | @setStats ops s hs m ih =>
      have ih := ih h.init
      rw [lastMessage_append_setStats]
      cases hσ : InternalType.ofName? m.type with
      | none =>
          have hne : ¬(m.type = τ.name ∧ m.key = k) := fun hm => by
            rw [hm.1, InternalType.ofName?_name] at hσ
            cases hσ
          rw [if_neg hne, step_setStats_unknown hσ, ih]
      | some σ =>
          have hname := InternalType.name_of_ofName? hσ
          have hle := (h.times m (List.mem_append_right _ List.mem_cons_self)).2
          rw [buckets_step_setStats hσ _ hτ]
          by_cases hτσ : τ = σ
          · subst hτσ
            rw [if_pos rfl]
            by_cases hkey : m.key = k
            · rw [if_pos ⟨hname.symm, hkey⟩]
              subst hkey
              by_cases haccepts : s.AcceptsMessage τ m
              · exact visible_putState_self haccepts t m.key m
              · -- refused: neither this message nor the one before it can be seen
                rw [visible_putState_of_not_accepts haccepts, ih]
                have hstale := not_fresh_of_refused h hs haccepts
                rw [Option.map_some, Option.filter_some_eq_none.mpr hstale,
                  Option.filter_eq_none_iff]
                intro r hr hfresh
                obtain ⟨m₀, hlast, rfl⟩ := Option.map_eq_some_iff.mp hr
                obtain ⟨htime, hinterval⟩ := h.steady_last hlast hname.symm rfl
                refine hstale (Record.fresh_iff.mpr ?_)
                have hle := Record.fresh_iff.mp hfresh
                simp only [recordOf, hinterval] at hle ⊢
                exact hle.trans htime
            · rw [if_neg fun hm => hkey hm.2,
                visible_putState_of_ne hle _ (Ne.symm hkey), ih]
          · have hne : ¬(m.type = τ.name ∧ m.key = k) := fun hm =>
              hτσ (InternalType.name_injective (hm.1.symm.trans hname.symm))
            rw [if_neg hτσ, if_neg hne, ih]

/-- After an orderly history the buckets accept both of their passes. -/
theorem Orderly.raised_summarize (h : Orderly plugin t ops) (hs : Reaches ops s) :
    (summarize t s).1.raised = none := by
  refine (acceptsTimes_of_summarize hs.filed).mpr fun σ => ?_
  have hwithin := h.within hs σ
  exact ⟨hwithin.accepts, (hwithin.visit le_rfl).accepts, trivial⟩

end Orderly

/-! ### The summary -/

/-- What a summary at `t` has to report for one type: one row for each host and
program, or host alone, that has a live process. -/
structure Reports (ops : List (Op α)) (plugin : String) (t : ℚ) (τ : InternalType) (g : Grouping)
    (values : List (Values α)) : Prop where
  /-- The row of a live process has one external value for each field, the sum of
  that field in the last messages of the live processes of the row. -/
  row : ∀ k, Live ops τ t k → ∃ (procs : List ProcessKey) (interval : ℚ),
    procs.Pairwise (· < ·) ∧ (∀ k', k' ∈ procs ↔ Live ops τ t k' ∧ g.row k' = g.row k) ∧
    values.filter (fun v => v.host = some k.hostname ∧ v.pluginInstance = some (g.programOf k)) =
      τ.toType.names.mapIdx fun i field =>
        rowValue t interval τ g plugin k field
          (pySum (procs.filterMap fun k' => (lastMessage τ k' ops).bind fun m => m.values[i]?))
  /-- There is no other row. -/
  only : ∀ v ∈ values, ∃ k, Live ops τ t k ∧ v.host = some k.hostname ∧
    v.pluginInstance = some (g.programOf k)

omit [Add α] [Zero α] [One α] in
theorem live_iff {ops : List (Op α)} {τ : InternalType} {t : ℚ} {k : ProcessKey} :
    Live ops τ t k ↔ (((lastMessage τ k ops).map recordOf).filter fun r => r.fresh t).isSome := by
  unfold Live
  cases lastMessage τ k ops with
  | none => simp
  | some m => simp [Option.filter_some, Record.fresh_iff, recordOf]

section Reports

variable {plugin : String} {t : ℚ} {ops : List (Op α)} {s : Receiver α} {τ : InternalType}
  (g : Grouping)

theorem get?_swept (h : Orderly plugin t ops) (hs : Reaches ops s) (hτ : τ ≠ .process)
    (k : ProcessKey) :
    (s.swept t τ).bucket.get? k =
      ((lastMessage τ k ops).map recordOf).filter fun r => r.fresh t := by
  rw [swept, get?_visit_eq_visible (h.within hs τ).accepts, h.visible hs hτ]

theorem getItem?_swept (h : Orderly plugin t ops) (hs : Reaches ops s) (hτ : τ ≠ .process)
    {k : ProcessKey} (hk : Live ops τ t k) : (s.swept t τ).getItem? k = lastMessage τ k ops := by
  obtain ⟨r, hr⟩ := Option.isSome_iff_exists.mp (live_iff.mp hk)
  rw [getItem?, get?_swept h hs hτ, hr]
  obtain ⟨m, hm, rfl⟩ := Option.map_eq_some_iff.mp (Option.filter_eq_some_iff.mp hr).1
  exact hm.symm

theorem mem_members_swept (h : Orderly plugin t ops) (hs : Reaches ops s) (hτ : τ ≠ .process)
    {c : String ×ₗ String} {k : ProcessKey} :
    k ∈ (s.swept t τ).members g c ↔ Live ops τ t k ∧ g.row k = c := by
  rw [mem_members, get?_swept h hs hτ, live_iff]

/-- The records of a row are the last messages of its live processes. -/
theorem mem_rowRecords_swept (h : Orderly plugin t ops) (hs : Reaches ops s) (hτ : τ ≠ .process)
    {c : String ×ₗ String} {m : Message α} (hm : m ∈ (s.swept t τ).rowRecords g c) :
    .setStats m ∈ ops ∧ m.type = τ.name ∧ g.row m.key = c := by
  obtain ⟨k, hk, hitem⟩ := List.mem_filterMap.mp hm
  obtain ⟨hlive, hrow⟩ := (mem_members_swept g h hs hτ).mp hk
  rw [getItem?_swept h hs hτ hlive] at hitem
  obtain ⟨hmem, htype, rfl⟩ := lastMessage_mem hitem
  exact ⟨hmem, htype, hrow⟩

/-- One field over the records of a row. -/
theorem rowRecords_field (h : Orderly plugin t ops) (hs : Reaches ops s) (hτ : τ ≠ .process)
    (c : String ×ₗ String) (i : ℕ) :
    ((s.swept t τ).rowRecords g c).filterMap (fun m : Message α => m.values[i]?) =
      ((s.swept t τ).members g c).filterMap fun k =>
        (lastMessage τ k ops).bind fun m : Message α => m.values[i]? := by
  rw [rowRecords, List.filterMap_filterMap]
  refine List.filterMap_congr fun k hk => ?_
  rw [getItem?_swept h hs hτ ((mem_members_swept g h hs hτ).mp hk).1]

theorem reports_passValues (h : Orderly plugin t ops) (hs : Reaches ops s) (hτ : τ ≠ .process) :
    Reports ops plugin t τ g (passValues t τ g (s.swept t τ)) where
  row k hk := by
    have hfiled := filed_swept hs.filed t τ
    have hc : g.row k ∈ (s.swept t τ).rows g :=
      mem_rows.mpr ⟨k, by rw [get?_swept h hs hτ]; exact live_iff.mp hk, rfl⟩
    obtain ⟨first, rest, hrecs⟩ := exists_rowRecords hc
    have hmem : ∀ m ∈ first :: rest, .setStats m ∈ ops ∧ m.type = τ.name ∧ g.row m.key = g.row k :=
      fun m hm => mem_rowRecords_swept g h hs hτ (hrecs ▸ hm)
    refine ⟨(s.swept t τ).members g (g.row k), first.interval, members_strict g _ _,
      fun k' => mem_members_swept g h hs hτ, ?_⟩
    have hlabel : ∀ v : Values α, labelOf v = rowLabel (g.row k) ↔
        v.host = some k.hostname ∧ v.pluginInstance = some (g.programOf k) := fun v => Prod.mk_inj
    calc (passValues t τ g (s.swept t τ)).filter _
      _ = (passValues t τ g (s.swept t τ)).filter
            fun v => labelOf v = rowLabel (g.row k) := by
          simp only [hlabel]
      _ = rowValues t τ g (first :: rest) := by
          rw [passValues_filter hfiled hc, hrecs]
      _ = _ := rowValues_eq (fun m hm => (hmem m hm).2.2) (fun m hm => h.plugins m (hmem m hm).1)
          fun m hm => h.complete m τ (hmem m hm).1 (hmem m hm).2.1
      _ = _ := by
          simp only [← hrecs, rowRecords_field g h hs hτ]
  only v hv := by
    obtain ⟨c, hc, hlabel⟩ := exists_row_of_mem_passValues (filed_swept hs.filed t τ) hv
    obtain ⟨k, hk, rfl⟩ := mem_rows.mp hc
    obtain ⟨hhost, hprogram⟩ := Prod.mk.inj hlabel
    rw [get?_swept h hs hτ] at hk
    exact ⟨k, live_iff.mpr hk, hhost, hprogram⟩

end Reports

/-- **Aggregation is correct whatever the arrival order.** After an orderly run a
summary at `t` does not raise. What it says of a type of the client are the sums over the
last messages of the live processes, first program by program and then host by host, and
nothing else. -/
theorem summarize_reports {plugin : String} {t : ℚ} {ops : List (Op α)}
    (h : Orderly plugin t ops) :
    (summarize t (run ops)).1.raised = none ∧
      ∀ τ, τ = .pool ∨ τ = .totals → ∃ byProgram byHost : List (Values α),
        (summarize t (run ops)).1.values.filter (fun v => OfType τ v) = byProgram ++ byHost ∧
        Reports ops plugin t τ .byProgname byProgram ∧
        Reports ops plugin t τ .byHostname byHost := by
  have hs := reaches_run ops
  have hraised := h.raised_summarize hs
  refine ⟨hraised, fun τ hτ => ?_⟩
  have hτ : τ ≠ .process := by rcases hτ with rfl | rfl <;> decide
  exact ⟨_, _, filter_ofType hs.filed hraised τ, reports_passValues .byProgname h hs hτ,
    reports_passValues .byHostname h hs hτ⟩

/-- Two processes of one program, the second of which reports late, and one of another. -/
def lateArrival : List (Op ℤ) :=
  [.setStats ⟨"sqlalchemy_pool", "1:aa", "sqlalchemy", "web", "h1", 100, 10, [1, 2, 3, 0, 5]⟩,
    .setStats ⟨"sqlalchemy_pool", "2:bb", "sqlalchemy", "web", "h1", 95, 10, [1, 1, 1, 1, 2]⟩,
    .setStats ⟨"sqlalchemy_pool", "3:cc", "sqlalchemy", "cron", "h1", 98, 10, [1, 0, 4, 0, 4]⟩]

theorem summarize_reports_lateArrival :
    ((summarize 101 (run lateArrival)).1.raised = none ∧
      ∀ τ, τ = .pool ∨ τ = .totals → ∃ byProgram byHost : List (Values ℤ),
        (summarize 101 (run lateArrival)).1.values.filter (fun v => OfType τ v) =
          byProgram ++ byHost ∧
        Reports lateArrival "sqlalchemy" 101 τ .byProgname byProgram ∧
        Reports lateArrival "sqlalchemy" 101 τ .byHostname byHost) ∧
    ((summarize 101 (run lateArrival)).1.values.filter fun v => OfType .pool v).map
        (fun v => (v.host, v.pluginInstance, v.typeInstance, v.values)) =
      [(some "h1", some "cron", some "numpools", [1]),
        (some "h1", some "cron", some "checkedout", [0]),
        (some "h1", some "cron", some "checkedin", [4]),
        (some "h1", some "cron", some "detached", [0]),
        (some "h1", some "cron", some "connections", [4]),
        (some "h1", some "web", some "numpools", [2]),
        (some "h1", some "web", some "checkedout", [3]),
        (some "h1", some "web", some "checkedin", [4]),
        (some "h1", some "web", some "detached", [1]),
        (some "h1", some "web", some "connections", [7]),
        (some "h1", some "host", some "numpools", [3]),
        (some "h1", some "host", some "checkedout", [3]),
        (some "h1", some "host", some "checkedin", [8]),
        (some "h1", some "host", some "detached", [1]),
        (some "h1", some "host", some "connections", [11])] := by
  have hmem : ∀ m : Message ℤ, .setStats m ∈ lateArrival →
      m = ⟨"sqlalchemy_pool", "1:aa", "sqlalchemy", "web", "h1", 100, 10, [1, 2, 3, 0, 5]⟩ ∨
        m = ⟨"sqlalchemy_pool", "2:bb", "sqlalchemy", "web", "h1", 95, 10, [1, 1, 1, 1, 2]⟩ ∨
          m = ⟨"sqlalchemy_pool", "3:cc", "sqlalchemy", "cron", "h1", 98, 10, [1, 0, 4, 0, 4]⟩ :=
    fun m hm => by simpa [lateArrival] using hm
  refine ⟨summarize_reports {
    types := fun m hm => by rcases hmem m hm with rfl | rfl | rfl <;> decide
    times := fun m hm => by rcases hmem m hm with rfl | rfl | rfl <;> norm_num
    intervals := fun m hm => by rcases hmem m hm with rfl | rfl | rfl <;> norm_num
    complete := fun m τ hm => by rcases hmem m hm with rfl | rfl | rfl <;> cases τ <;> decide
    plugins := fun m hm => by rcases hmem m hm with rfl | rfl | rfl <;> rfl
    summaries := fun s hs => by simp [lateArrival] at hs
    steady := ?_ }, by decide +kernel⟩
  -- no process reports twice
  have hkeys : lateArrival.Pairwise fun a b =>
      ∀ m m', a = .setStats m → b = .setStats m' → m.key ≠ m'.key := by
    simp [lateArrival, Message.key]
  exact hkeys.imp fun hne m m' hm hm' _ hkey => absurd hkey (hne m m' hm hm')

end Receiver

end SqlalchemyCollectd
