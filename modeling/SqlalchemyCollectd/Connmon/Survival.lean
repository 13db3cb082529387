import SqlalchemyCollectd.Connmon.Monitor
import SqlalchemyCollectd.Connmon.Session

/-!
# SqlalchemyCollectd.Connmon.Survival

What the display survives.

A frame that cannot be drawn ends the display (`Session.lives_iff`), so it takes numbers
that are finite, and names that mean nothing to `_render_str`, to keep it going. Messages
that are `Tame` bring nothing else, and what a `Stat` makes of them is as harmless as they
are, as long as there are not so many programs that the counts add up to something that is
not a count any more.
-/

namespace SqlalchemyCollectd

namespace Number

/-- A number that counts less than `2 ^ 32` of something. -/
def Small (x : Number) : Prop := ∃ n < 2 ^ 32, x.Counts n

/-- An int. -/
def Whole (x : Number) : Prop := ∃ n, x = .int n

theorem small_zero : (int 0).Small := ⟨0, by norm_num, Or.inl rfl⟩

theorem pyMax_cases (x y : Number) : x.pyMax y = x ∨ x.pyMax y = y := by
  unfold pyMax
  split
  · exact Or.inr rfl
  · exact Or.inl rfl

theorem Small.pyMax {x y : Number} (hx : x.Small) (hy : y.Small) : (x.pyMax y).Small := by
  obtain h | h := pyMax_cases x y
  · rw [h]
    exact hx
  · rw [h]
    exact hy

theorem Whole.sub {x y : Number} (hx : x.Whole) (hy : y.Whole) : (x - y).Whole := by
  obtain ⟨m, rfl⟩ := hx
  obtain ⟨n, rfl⟩ := hy
  exact ⟨m - n, rfl⟩

theorem Counts.finite {x : Number} {n : ℕ} (h : x.Counts n) (hn : n < 2 ^ 53) : x.Finite :=
  ⟨n, h.value?_eq hn⟩

theorem Small.finite {x : Number} (h : x.Small) : x.Finite := by
  obtain ⟨n, hn, hcounts⟩ := h
  exact hcounts.finite (hn.trans (by norm_num))

theorem Whole.finite {x : Number} (h : x.Whole) : x.Finite := by
  obtain ⟨n, rfl⟩ := h
  exact ⟨n, rfl⟩

theorem Finite.pyMax {x y : Number} (hx : x.Finite) (hy : y.Finite) : (x.pyMax y).Finite := by
  obtain h | h := pyMax_cases x y
  · rw [h]
    exact hx
  · rw [h]
    exact hy

end Number

/-- A message from a host and a program with plain names that counts what there is, or
gives an integer for a total. -/
structure Message.Tame (m : Message Number) : Prop where
  host : Plain m.host.toList
  program : Plain m.pluginInstance.toList
  counts : m.typeInstance ∈ ["numprocs", "checkedout", "connections"] →
    ∀ x ∈ m.values.head?, x.Small
  totals : m.typeInstance ∈ ["connects", "checkouts"] → ∀ x ∈ m.values.head?, x.Whole

namespace HostProg

/-! ### Rows -/

/-- A row as tame messages leave it. -/
structure Tame (row : HostProg) : Prop where
  processCount : ∀ x ∈ row.processCount, x.Small
  maxProcessCount : row.maxProcessCount.Small
  connectionCount : ∀ x ∈ row.connectionCount, x.Small
  maxConnections : row.maxConnections.Small
  checkoutCount : ∀ x ∈ row.checkoutCount, x.Small
  maxCheckedout : row.maxCheckedout.Small
  totalConnects : ∀ x ∈ row.totalConnects, x.Whole
  intervalConnects : ∀ x ∈ row.intervalConnects, x.Whole
  totalCheckouts : ∀ x ∈ row.totalCheckouts, x.Whole
  intervalCheckouts : ∀ x ∈ row.intervalCheckouts, x.Whole

theorem forall_mem_some {α : Type} {P : α → Prop} {a : α} (h : P a) : ∀ x ∈ some a, P x := by
  intro x hx
  exact Option.some.inj hx ▸ h

/-- What `update_total_checkouts` has written when it raises. -/
theorem exists_of_updateTotalCheckouts_error {time interval : ℚ} {value : Number}
    {row row' : HostProg} {e : PyError}
    (h : updateTotalCheckouts time interval value row = .error e row') :
    row' = row ∨ ∃ total, row.totalCheckouts = some total ∧
      row' = { row with intervalCheckouts := some (value - total) } := by
  unfold updateTotalCheckouts at h
  by_cases hlast : row.lastTotalCheckoutTime.getD 0 = 0
  · rw [if_pos hlast] at h
    cases h
  · rw [if_neg hlast] at h
    cases htotal : row.totalCheckouts with
    | none =>
        rw [htotal] at h
        cases h
        exact Or.inl rfl
    | some total =>
        rw [htotal] at h
        dsimp only at h
        -- only the rate is left to be computed
        refine Or.inr ⟨total, rfl, ?_⟩
        split_ifs at h
        cases hrate : (value - total).trueDiv (time - row.lastTotalCheckoutTime.getD 0) with
        | ok rate =>
            rw [hrate] at h
            cases h
        | error e' =>
            rw [hrate] at h
            cases h
            rfl

section Updaters

variable {row : HostProg} {value : Number}

namespace Tame

theorem killProcesses (h : row.Tame) : row.killProcesses.Tame :=
  { h with
    processCount := forall_mem_some Number.small_zero
    connectionCount := forall_mem_some Number.small_zero
    checkoutCount := forall_mem_some Number.small_zero }

theorem updateProcessCount (h : row.Tame) (hvalue : value.Small) :
    (HostProg.updateProcessCount value row).Tame :=
  { h with
    processCount := forall_mem_some hvalue
    maxProcessCount := hvalue.pyMax h.maxProcessCount }

theorem updateCheckedout (h : row.Tame) (hvalue : value.Small) :
    (HostProg.updateCheckedout value row).Tame :=
  { h with
    checkoutCount := forall_mem_some hvalue
    maxCheckedout := h.maxCheckedout.pyMax hvalue }

theorem updateConnectionCount (h : row.Tame) (hvalue : value.Small) :
    (HostProg.updateConnectionCount value row).Tame :=
  { h with
    connectionCount := forall_mem_some hvalue
    maxConnections := h.maxConnections.pyMax hvalue }

theorem updateTotalConnects (h : row.Tame) (hvalue : value.Whole) :
    (HostProg.updateTotalConnects value row).Tame :=
  { h with
    totalConnects := forall_mem_some hvalue
    intervalConnects := by
      unfold HostProg.updateTotalConnects
      cases htotal : row.totalConnects with
      | none => exact h.intervalConnects
      | some total => exact forall_mem_some (hvalue.sub (h.totalConnects total htotal)) }

theorem storeTotalCheckouts (h : row.Tame) (hvalue : value.Whole) (time : ℚ) :
    (HostProg.storeTotalCheckouts time value row).Tame :=
  { h with totalCheckouts := forall_mem_some hvalue }

theorem updateTotalCheckouts (h : row.Tame) (hvalue : value.Whole) {time interval : ℚ}
    {row' : HostProg}
    (hupdate : HostProg.updateTotalCheckouts time interval value row = .ok () row') :
    row'.Tame := by
  obtain rfl | ⟨last, total, -, htotal, hrow'⟩ := updateTotalCheckouts_cases hupdate
  · exact h.storeTotalCheckouts hvalue time
  · have hgrown : ∀ rate, ({ row with
        intervalCheckouts := some (value - total), checkoutsPerSecond := rate } : HostProg).Tame :=
      fun _ => { h with
        intervalCheckouts := forall_mem_some (hvalue.sub (h.totalCheckouts total htotal)) }
    obtain rfl | ⟨rate, -, rfl⟩ := hrow'
    · exact (hgrown row.checkoutsPerSecond).storeTotalCheckouts hvalue time
    · exact (hgrown rate).storeTotalCheckouts hvalue time

/-- Where the rate cannot be computed, the growth has been written. -/
theorem updateTotalCheckouts_error (h : row.Tame) (hvalue : value.Whole) {time interval : ℚ}
    {e : PyError} {row' : HostProg}
    (hupdate : HostProg.updateTotalCheckouts time interval value row = .error e row') :
    row'.Tame := by
  obtain hsame | ⟨total, htotal, rfl⟩ := exists_of_updateTotalCheckouts_error hupdate
  · exact hsame ▸ h
  · exact { h with
      intervalCheckouts := forall_mem_some (hvalue.sub (h.totalCheckouts total htotal)) }

theorem stamp (h : row.Tame) (interval lastTime : ℚ) :
    ({ row with interval, lastTime } : HostProg).Tame :=
  { h with }

/-- **A tame message** leaves a tame row, whether its updater raises or not. -/
theorem received (h : row.Tame) {m : Message Number} (hm : m.Tame) : (row.received m).Tame := by
  by_cases hfield : m.typeInstance ∈ statistics
  · cases hvalues : m.values with
    | nil =>
        rw [received_of_nil hvalues]
        exact h
    | cons value rest =>
        have hvalue : value ∈ m.values.head? := by rw [hvalues, List.head?_cons, Option.mem_some]
        simp only [statistics, List.mem_cons, List.not_mem_nil, or_false] at hfield
        rcases hfield with hname | hname | hname | hname | hname
        · have hupdater : updater? m =
              some fun value => modify (HostProg.updateProcessCount value) := by
            simp only [updater?, hname]
          have hsmall : value.Small := hm.counts (by simp [hname]) value hvalue
          rw [received_of_modify hupdater hvalues]
          exact (h.updateProcessCount hsmall).stamp _ _
        · have hupdater : updater? m =
              some fun value => modify (HostProg.updateCheckedout value) := by
            simp only [updater?, hname]
          have hsmall : value.Small := hm.counts (by simp [hname]) value hvalue
          rw [received_of_modify hupdater hvalues]
          exact (h.updateCheckedout hsmall).stamp _ _
        · have hupdater : updater? m =
              some fun value => modify (HostProg.updateConnectionCount value) := by
            simp only [updater?, hname]
          have hsmall : value.Small := hm.counts (by simp [hname]) value hvalue
          rw [received_of_modify hupdater hvalues]
          exact (h.updateConnectionCount hsmall).stamp _ _
        · have hupdater : updater? m =
              some fun value => modify (HostProg.updateTotalConnects value) := by
            simp only [updater?, hname]
          have hwhole : value.Whole := hm.totals (by simp [hname]) value hvalue
          rw [received_of_modify hupdater hvalues]
          exact (h.updateTotalConnects hwhole).stamp _ _
        · have hupdater : updater? m = some (HostProg.updateTotalCheckouts m.time m.interval) := by
            simp only [updater?, hname]
          have hwhole : value.Whole := hm.totals (by simp [hname]) value hvalue
          -- this updater may raise, after it has written the growth
          rw [HostProg.received, receive_checkouts hupdater hvalues]
          cases hupdate : HostProg.updateTotalCheckouts m.time m.interval value row with
          | ok _ row' => exact (h.updateTotalCheckouts hwhole hupdate).stamp _ _
          | error e row' => exact h.updateTotalCheckouts_error hwhole hupdate
  · rw [received_of_not_mem hfield]
    exact h

end Tame

end Updaters

end HostProg

namespace Stat

/-! ### Totals -/

theorem finite_sumRows {st : Stat} {field : HostProg → Option Number}
    (hrows : ∀ row ∈ st.hostprogs.items.map Prod.snd, ∀ x ∈ field row, x.Small)
    (hfew : st.hostprogs.items.length ≤ 2 ^ 21) : (st.sumRows field).Finite := by
  -- what each number counts
  choose! count hcount using fun (x : Number) (hx : x.Small) => hx
  have hlt : ∀ row ∈ st.hostprogs.items.map Prod.snd, ((field row).map count).getD 0 < 2 ^ 32 := by
    intro row hrow
    cases hfield : field row with
    | none => norm_num
    | some x => exact (hcount x (hrows row hrow x hfield)).1
  have hsum := sum_map_lt (by norm_num : 0 < 2 ^ 21) (by norm_num : 0 < 2 ^ 32)
    ((List.length_map _).trans_le hfew) hlt
  have hsmall := hsum.trans_eq (by norm_num : 2 ^ 21 * 2 ^ 32 = 2 ^ 53)
  refine (counts_pySum (fun row hrow => ?_) hsmall).finite hsmall
  cases hfield : field row with
  | none => rfl
  | some x => exact (hcount x (hrows row hrow x hfield)).2

/-- The totals of tame rows can be shown, and their maxima. -/
theorem TotalsShown.updateHostStats {st : Stat} (h : st.TotalsShown)
    (hrows : ∀ row ∈ st.hostprogs.items.map Prod.snd, row.Tame)
    (hfew : st.hostprogs.items.length ≤ 2 ^ 21) : st.updateHostStats.TotalsShown := by
  have hprocesses := finite_sumRows (fun row hrow => (hrows row hrow).processCount) hfew
  have hconnections := finite_sumRows (fun row hrow => (hrows row hrow).connectionCount) hfew
  have hcheckouts := finite_sumRows (fun row hrow => (hrows row hrow).checkoutCount) hfew
  intro x hx
  simp only [totals, Stat.updateHostStats, List.mem_cons, List.not_mem_nil, or_false] at hx
  rcases hx with rfl | rfl | rfl | rfl | rfl | rfl
  · exact hprocesses
  · exact (h _ (by simp [totals])).pyMax hprocesses
  · exact hconnections
  · exact (h _ (by simp [totals])).pyMax hconnections
  · exact hcheckouts
  · exact (h _ (by simp [totals])).pyMax hcheckouts

/-! ### Runs -/

section Tame

variable {events : List Event} (htame : ∀ m, .message m ∈ events → m.Tame)

include htame

end Tame

end Stat

/-! ### Sessions -/

namespace Session

end Session

end SqlalchemyCollectd
