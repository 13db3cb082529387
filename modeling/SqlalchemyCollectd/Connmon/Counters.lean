import SqlalchemyCollectd.Connmon.View
import SqlalchemyCollectd.Server.Accounting

/-!
# SqlalchemyCollectd.Connmon.Counters

From the counters of the processes to the rows of the monitor.

What a process has counted goes through its sender, the receiver, a summary, collectd and
the connmon plugin before it is shown. `Shows` says what is left of it at the end: each row
shows the sums over its processes, and the sum of the rows is the sum over all of them.
-/

namespace SqlalchemyCollectd

open Receiver Service TimeBucket

namespace Dispatch

/-- The rows of a grouping show what the processes have counted for a type. -/
structure Shows (dispatches : List Dispatch) (t : ℚ) (τ : InternalType) (g : Grouping)
    (st : Stat) : Prop where
  /-- The row of a process that has reported lately has the sums over all such processes
  of the row. -/
  row : ∀ k, Reporting dispatches τ t k → ∃ (procs : List ProcessKey) (row : HostProg),
    procs.Pairwise (· < ·) ∧
    (∀ k', k' ∈ procs ↔ Reporting dispatches τ t k' ∧ g.row k' = g.row k) ∧
    (g.row k, row) ∈ st.rowsBy g ∧
    ∀ i field, τ.toType.names[i]? = some field → field ∈ HostProg.statistics →
      (procs.map (lastCount dispatches τ i)).sum < 2 ^ 53 →
        ∃ x, row.shown field = some x ∧ x.Counts (procs.map (lastCount dispatches τ i)).sum
  /-- No other row shows anything of the type. -/
  only : ∀ c row, (c, row) ∈ st.rowsBy g → ∀ field ∈ τ.toType.names, (row.shown field).isSome →
    ∃ k, Reporting dispatches τ t k ∧ g.row k = c
  /-- The rows add up to the sums over all processes that have reported lately. -/
  total : ∃ procs : List ProcessKey, procs.Pairwise (· < ·) ∧
    (∀ k, k ∈ procs ↔ Reporting dispatches τ t k) ∧
    ∀ i field, τ.toType.names[i]? = some field → field ∈ HostProg.statistics →
      (procs.map (lastCount dispatches τ i)).sum < 2 ^ 53 →
        (st.sumBy g field).Counts (procs.map (lastCount dispatches τ i)).sum

/-! ### The reports can be passed on -/

section Tells

variable {t : ℚ} {dispatches : List Dispatch} {ops : List (Op Number)} {s : Receiver Number}
  {τ : InternalType}

theorem full_message (r : Report) (hτ : τ ≠ .process) : Full τ (r.message τ).values := by
  cases τ with
  | pool => exact ⟨(r.counts .pool).map fun n => Float.nearest n, rfl, rfl⟩
  | totals => exact ⟨(r.counts .totals).map fun n : ℕ => (n : ℤ), rfl, rfl⟩
  | process => exact absurd rfl hτ

theorem Tells.fromClient (h : Tells t dispatches ops s)
    (hnamed : ∀ p ∈ dispatches, p.1.sender.statsName ≠ "host") {m : Message Number}
    (hm : .setStats m ∈ ops) : FromClient m := by
  obtain ⟨p, hp, rfl⟩ := h.exists_dispatch hm
  have hfits := h.fits p hp
  refine ⟨p.2, h.kinds p hp, rfl, hfits.hostname, hfits.program, ?_, hnamed p hp,
    full_message p.1 (h.kinds p hp)⟩
  exact (by decide +kernel : Encodable "sqlalchemy")

/-- **The summary can be passed on**, within the bounds of the wire. -/
theorem Tells.reportable (h : Tells t dispatches ops s) (ht : 0 ≤ t ∧ t < 2 ^ 63)
    (hnamed : ∀ p ∈ dispatches, p.1.sender.statsName ≠ "host")
    (hsums : ∀ v ∈ (summarize t s).1.values, v.type = some "derive" → ∀ n,
      v.values = [.int n] → -2 ^ 63 ≤ n ∧ n < 2 ^ 63)
    (hprocesses : (s.swept t .process).bucket.items.length < 2 ^ 53) :
    Reportable t s where
  filed := h.reaches.filed
  proper σ := (h.reaches.proper (fun _ hm => h.fromClient hnamed hm) σ).visit t none
  raised := h.raised_summarize
  time := Report.pyInt_range ht
  sums := hsums
  processes := hprocesses

/-- What a process counts in the bucket is what it counted when it reported last. -/
theorem Tells.counts_swept (h : Tells t dispatches ops s) (hτ : τ ≠ .process) (i : ℕ)
    {k : ProcessKey} {r : Record (Message Number)}
    (hr : (s.swept t τ).bucket.get? k = some r) {x : Number}
    (hx : r.value.values[i]? = some x) : x.Counts (lastCount dispatches τ i k) := by
  have hlast : ((lastMessage τ k ops).map recordOf).filter (fun r => r.fresh t) = some r :=
    (get?_swept h.orderly h.reaches hτ k).symm.trans hr
  obtain ⟨hrecord, -⟩ := Option.filter_eq_some_iff.mp hlast
  obtain ⟨m, hm, rfl⟩ := Option.map_eq_some_iff.mp hrecord
  have hcounts := h.counts_field hτ i k
  rw [hm, Option.bind_some, show m.values[i]? = some x from hx] at hcounts
  exact hcounts

/-- The processes of a bucket are those that have reported lately. -/
theorem Tells.isSome_swept_iff (h : Tells t dispatches ops s) (hτ : τ ≠ .process) {k : ProcessKey} :
    ((s.swept t τ).bucket.get? k).isSome ↔ Reporting dispatches τ t k := by
  have hget : (s.swept t τ).bucket.get? k =
      ((lastMessage τ k ops).map recordOf).filter fun r => r.fresh t :=
    get?_swept h.orderly h.reaches hτ k
  rw [hget, ← Receiver.live_iff]
  exact h.live_iff

/-- **What has been passed on shows what the processes have counted.** -/
theorem Tells.shows (h : Tells t dispatches ops s) (hτ : τ ≠ .process)
    (hreport : Reportable t s) {ms : List (Message Number)} {st : Stat}
    (hrelayed : Relayed t s ms) (hst : Stat.Delivered ms st) (g : Grouping) :
    Shows dispatches t τ g st where
  row k hk := by
    have hc : g.row k ∈ (s.swept t τ).rows g :=
      mem_rows.mpr ⟨k, (h.isSome_swept_iff hτ).mpr hk, rfl⟩
    obtain ⟨first, hfirst⟩ : ∃ first, τ.toType.names[0]? = some first := by
      cases τ <;> exact ⟨_, rfl⟩
    obtain ⟨-, row, -, -, hrow, -⟩ := hrelayed.exists_row hreport hst hc hfirst
    refine ⟨(s.swept t τ).members g (g.row k), row, members_strict .., fun k' => ?_, hrow,
      fun i field hname hfield hsmall => ?_⟩
    · rw [mem_members, h.isSome_swept_iff hτ]
    · obtain ⟨v, row', x, hemits, hrow', hx, hshown⟩ := hrelayed.exists_row hreport hst hc hname
      obtain rfl : row = row' :=
        Option.some.inj (((mem_rowsBy hst).mp hrow).1.symm.trans ((mem_rowsBy hst).mp hrow').1)
      obtain rfl : x = _ := List.singleton_inj.mp (hx.symm.trans hemits.values)
      refine ⟨_, hshown hfield, (counts_row (hreport.proper τ) hname ?_ g _ hsmall).carried _⟩
      exact fun k r hr x hx => h.counts_swept hτ i hr hx
  only c row hrow field hfield hshown := by
    obtain ⟨i, hname⟩ := List.getElem?_of_mem hfield
    obtain ⟨k, hk, hc⟩ := mem_rows.mp (hrelayed.row_of_shown hreport hst hname hrow hshown)
    exact ⟨k, (h.isSome_swept_iff hτ).mp hk, hc⟩
  total := by
    refine ⟨(s.swept t τ).sortedKeys, sortedKeys_strict _, fun k => ?_,
      fun i field hname hfield hsmall => ?_⟩
    · rw [mem_sortedKeys, h.isSome_swept_iff hτ]
    · have hperm : ((s.swept t τ).sortedKeys.map (lastCount dispatches τ i)).sum =
          ((s.swept t τ).bucket.keys.map (lastCount dispatches τ i)).sum :=
        ((List.perm_insertionSort ..).map _).sum_eq
      rw [hperm] at hsmall ⊢
      exact hrelayed.counts_sumBy hreport hst hname hfield
        (fun k r hr x hx => h.counts_swept hτ i hr hx) hsmall g

end Tells

/-- **What the processes count is what the monitor shows.** However the datagrams of the
processes come in until `t`, the summary at `t` can be packed, relayed and shown, in
whatever order its values are delivered, and for both types of the client the rows of the
programs and of the hosts, and the totals over them, are sums of what the processes counted
when they last reported. -/
theorem shows_counts {t : ℚ} {events : List (Mailbox.Event Item ReadStep)}
    {dispatches : List Dispatch} {s : Mailbox.State ServerPlugin Item}
    (h : ServerPlugin.Serves events s)
    (hfeeds : Feeds t events dispatches) (ht : 0 ≤ t ∧ t < 2 ^ 63)
    (hnamed : ∀ p ∈ dispatches, p.1.sender.statsName ≠ "host")
    (hsums : ∀ v ∈ (summarize t s.state.receiver).1.values, v.type = some "derive" → ∀ n,
      v.values = [.int n] → -2 ^ 63 ≤ n ∧ n < 2 ^ 63)
    (hprocesses : (s.state.receiver.swept t .process).bucket.items.length < 2 ^ 53)
    {order : List (Values Number × ℤ)}
    (horder : (order.map Prod.fst).Perm (summarize t s.state.receiver).1.values)
    (hinterval : ∀ p ∈ order, 0 < p.2 ∧ p.2 < 2 ^ 63) :
    ∃ (arrived waiting : List Dispatch) (ms : List (Message Number)) (st : Stat),
      dispatches = arrived ++ waiting ∧
      s.queue = waiting.map (fun p => some (p.1.datagram p.2)) ∧
      (order.map fun p => relay { p.1 with interval := p.2 }) =
        (ms.map fun m => some (.ok (some m))) ∧
      ms.forM Stat.update {} = .ok () st ∧
      ∀ τ, τ ≠ .process → ∀ g, Shows arrived t τ g st := by
  obtain ⟨arrived, waiting, ops, rfl, hqueue, -, htells⟩ := hfeeds.exists_tells h
  have hreport := htells.reportable ht (fun p hp => hnamed p (List.mem_append_left _ hp)) hsums
    hprocesses
  obtain ⟨ms, st, hrelay, hforM, hrelayed, hst⟩ := hreport.deliver horder hinterval
  exact ⟨arrived, waiting, ms, st, rfl, hqueue, hrelay, hforM,
    fun τ hτ g => htells.shows hτ hreport hrelayed hst g⟩

/-- The two processes have made seven checkouts. -/
theorem shows_counts_twoProcesses :
    ∃ (s : Mailbox.State ServerPlugin Item) (arrived waiting : List Dispatch)
      (ms : List (Message Number)) (st : Stat),
      twoProcesses = arrived ++ waiting ∧
      s.queue = waiting.map (fun p => some (p.1.datagram p.2)) ∧
      (((summarize 1001 s.state.receiver).1.values.map fun v => (v, (10 : ℤ))).map fun p =>
          relay { p.1 with interval := p.2 }) = (ms.map fun m => some (.ok (some m))) ∧
      ms.forM Stat.update {} = .ok () st ∧
      ∀ τ, τ ≠ .process → ∀ g, Shows arrived 1001 τ g st := by
  have hvalues : (twoProcessesEvents.foldlM
      (Transition.guarded (Mailbox.step ServerPlugin.serve ServerPlugin.read) fun _ _ => True)
      { state := {} }).map (fun s =>
        ((s.state.receiver.swept 1001 .process).bucket.items.length,
          (summarize 1001 s.state.receiver).1.values.filterMap fun v =>
            if v.type = some "derive" then some v.values else none)) =
      some (2, [[.int 7], [.int 0], [.int 0], [.int 0], [.int 7], [.int 0], [.int 0],
        [.int 0]]) := by
    decide +kernel
  obtain ⟨s, hs, hbounds⟩ := Option.map_eq_some_iff.mp hvalues
  obtain ⟨hprocesses, hderived⟩ := Prod.mk.inj hbounds
  have hsums : ∀ v ∈ (summarize 1001 s.state.receiver).1.values, v.type = some "derive" → ∀ n,
      v.values = [.int n] → -2 ^ 63 ≤ n ∧ n < 2 ^ 63 := by
    intro v hv htype n hn
    have hmem : [.int n] ∈ (summarize 1001 s.state.receiver).1.values.filterMap fun v =>
        if v.type = some "derive" then some v.values else none :=
      List.mem_filterMap.mpr ⟨v, hv, by rw [if_pos htype, hn]⟩
    rw [hderived] at hmem
    have hcases : n = 7 ∨ n = 0 ∨ n = 7 ∨ n = 0 := by simpa using hmem
    omega
  have horder : (((summarize 1001 s.state.receiver).1.values.map fun v => (v, (10 : ℤ))).map
      Prod.fst).Perm (summarize 1001 s.state.receiver).1.values := by
    rw [List.map_map, Function.comp_def, List.map_id']
  have hinterval : ∀ p ∈ (summarize 1001 s.state.receiver).1.values.map fun v => (v, (10 : ℤ)),
      0 < p.2 ∧ p.2 < 2 ^ 63 := by
    intro p hp
    obtain ⟨v, -, rfl⟩ := List.mem_map.mp hp
    norm_num
  obtain ⟨arrived, waiting, ms, st, hshows⟩ := shows_counts (Transition.Run.of_exec hs)
    feeds_twoProcesses (by norm_num) (by simp [twoProcesses, webReport]) hsums
    (by rw [hprocesses]; norm_num) horder hinterval
  exact ⟨s, arrived, waiting, ms, st, hshows⟩

end Dispatch

end SqlalchemyCollectd
