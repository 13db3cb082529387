import SqlalchemyCollectd.Connmon.Stat

/-!
# SqlalchemyCollectd.Connmon.Rows

What a message does to the row it belongs to.

A row shows five statistics, each under the name of its updater. A message that is
received replaces the one statistic it names and leaves the others alone
(`shown_receive`); only the second message about checkouts can raise.
-/

namespace SqlalchemyCollectd

namespace HostProg

/-- The statistic that an updater keeps up to date. -/
def shown (row : HostProg) : String → Option Number
  | "numprocs" => row.processCount
  | "checkedout" => row.checkoutCount
  | "connections" => row.connectionCount
  | "connects" => row.totalConnects
  | "checkouts" => row.totalCheckouts
  | _ => none

/-- The names under which there is an updater. -/
def statistics : List String := ["numprocs", "checkedout", "connections", "connects", "checkouts"]

/-- The outcomes of `update_total_checkouts` when it does not raise: a first message,
growth without a rate, and growth with one. -/
theorem updateTotalCheckouts_cases {time interval : ℚ} {value : Number} {row row' : HostProg}
    (h : updateTotalCheckouts time interval value row = .ok () row') :
    row' = row.storeTotalCheckouts time value ∨
      ∃ last total, row.lastTotalCheckoutTime = some last ∧ row.totalCheckouts = some total ∧
        (row' = storeTotalCheckouts time value
            { row with intervalCheckouts := some (value - total) } ∨
          ∃ rate, (value - total).trueDiv (time - last) = .ok rate ∧
            row' = storeTotalCheckouts time value
              { row with
                intervalCheckouts := some (value - total), checkoutsPerSecond := some rate }) := by
  unfold updateTotalCheckouts at h
  by_cases hlast : row.lastTotalCheckoutTime.getD 0 = 0
  · rw [if_pos hlast] at h
    cases h
    exact Or.inl rfl
  · obtain ⟨last, hsome⟩ : ∃ last, row.lastTotalCheckoutTime = some last := by
      cases hnone : row.lastTotalCheckoutTime with
      | none => exact absurd (by rw [hnone, Option.getD_none]) hlast
      | some last => exact ⟨last, rfl⟩
    rw [if_neg hlast, hsome, Option.getD_some] at h
    cases htotal : row.totalCheckouts with
    | none => rw [htotal] at h; cases h
    | some total =>
        refine Or.inr ⟨last, total, hsome, rfl, ?_⟩
        rw [htotal] at h
        dsimp only at h
        split at h
        · cases hrate : (value - total).trueDiv (time - last) with
          | error e => rw [hrate] at h; cases h
          | ok rate =>
              rw [hrate] at h
              cases h
              exact Or.inr ⟨rate, rfl, rfl⟩
        · cases h
          exact Or.inl rfl

/-- What `update_total_checkouts` writes, whether it raises or not. -/
theorem updateTotalCheckouts_frame (time interval : ℚ) (value : Number) (row : HostProg) :
    ∃ total growth clock rate,
      (match updateTotalCheckouts time interval value row with
        | .ok _ row' => row'
        | .error _ row' => row') =
      { row with
        totalCheckouts := total, intervalCheckouts := growth, lastTotalCheckoutTime := clock
        checkoutsPerSecond := rate } := by
  unfold updateTotalCheckouts
  by_cases hlast : row.lastTotalCheckoutTime.getD 0 = 0
  · exact ⟨_, _, _, _, by rw [if_pos hlast]; rfl⟩
  · simp only [hlast, if_false]
    cases row.totalCheckouts with
    | none =>
        exact ⟨row.totalCheckouts, row.intervalCheckouts, row.lastTotalCheckoutTime,
          row.checkoutsPerSecond, rfl⟩
    | some total =>
        dsimp only
        split_ifs
        · cases (value - total).trueDiv (time - row.lastTotalCheckoutTime.getD 0) with
          | ok rate => exact ⟨_, _, _, _, rfl⟩
          | error e => exact ⟨_, _, _, _, rfl⟩
        · exact ⟨_, _, _, _, rfl⟩

/-! ### Receiving a message -/

theorem shown_updateProcessCount (value : Number) (row : HostProg) (field : String) :
    (updateProcessCount value row).shown field =
      if field = "numprocs" then some value else row.shown field := by
  unfold shown
  split <;> simp_all [updateProcessCount]

theorem shown_updateCheckedout (value : Number) (row : HostProg) (field : String) :
    (updateCheckedout value row).shown field =
      if field = "checkedout" then some value else row.shown field := by
  unfold shown
  split <;> simp_all [updateCheckedout]

theorem shown_updateConnectionCount (value : Number) (row : HostProg) (field : String) :
    (updateConnectionCount value row).shown field =
      if field = "connections" then some value else row.shown field := by
  unfold shown
  split <;> simp_all [updateConnectionCount]

theorem shown_updateTotalConnects (value : Number) (row : HostProg) (field : String) :
    (updateTotalConnects value row).shown field =
      if field = "connects" then some value else row.shown field := by
  unfold shown
  split <;> simp_all [updateTotalConnects]

theorem shown_storeTotalCheckouts (time : ℚ) (value : Number) (row : HostProg) (field : String) :
    (storeTotalCheckouts time value row).shown field =
      if field = "checkouts" then some value else row.shown field := by
  unfold shown
  split <;> simp_all [storeTotalCheckouts]

theorem shown_updateTotalCheckouts {time interval : ℚ} {value : Number} {row row' : HostProg}
    (h : updateTotalCheckouts time interval value row = .ok () row') (field : String) :
    row'.shown field = if field = "checkouts" then some value else row.shown field := by
  obtain rfl | ⟨_, _, -, -, rfl | ⟨_, -, rfl⟩⟩ := updateTotalCheckouts_cases h <;>
    rw [shown_storeTotalCheckouts] <;> rfl

theorem shown_replaced {row row' : HostProg} {field : String} {value : Number}
    (h : ∀ other, row'.shown other = if other = field then some value else row.shown other) :
    row'.shown field = some value ∧ ∀ other, other ≠ field → row'.shown other = row.shown other :=
  ⟨by simp [h], fun other hne => by simp [h, hne]⟩

/-- A message without an updater does nothing to its row. -/
theorem receive_of_not_mem {m : Message Number} (h : m.typeInstance ∉ statistics) (row : HostProg) :
    receive m row = .ok () row := by
  have hnone : updater? m = none := by
    unfold updater?
    split <;> first | rfl | exact absurd (by rename_i heq; rw [heq]; decide) h
  unfold receive
  rw [hnone]
  rfl

/-- What an updater does to the five statistics, if it does not raise. -/
structure Replaces (field : String) (value : Number) (now : ℚ) (row row' : HostProg) : Prop where
  self : row'.shown field = some value
  others : ∀ other, other ≠ field → row'.shown other = row.shown other
  clock : row'.lastTotalCheckoutTime =
    if field = "checkouts" then some now else row.lastTotalCheckoutTime
  connects : row'.intervalConnects = row.intervalConnects ∨ field = "connects" ∧
    ∃ total, row.totalConnects = some total ∧ row'.intervalConnects = some (value - total)
  checkouts : row'.intervalCheckouts = row.intervalCheckouts ∨ field = "checkouts" ∧
    ∃ total, row.totalCheckouts = some total ∧ row'.intervalCheckouts = some (value - total)
  rate : row'.checkoutsPerSecond = row.checkoutsPerSecond ∨ field = "checkouts" ∧
    ∃ last total rate, row.lastTotalCheckoutTime = some last ∧ row.totalCheckouts = some total ∧
      (value - total).trueDiv (now - last) = .ok rate ∧ row'.checkoutsPerSecond = some rate

/-- The time and the interval of the message are none of the statistics. -/
theorem Replaces.stamp {field : String} {value : Number} {now : ℚ} {row row' : HostProg}
    (h : Replaces field value now row row') (time interval : ℚ) :
    Replaces field value now row { row' with interval, lastTime := time } where
  self := h.self
  others := h.others
  clock := h.clock
  connects := h.connects
  checkouts := h.checkouts
  rate := h.rate

/-- An updater that never raises, and what it does. -/
structure Updates (update : Number → HostProg → HostProg) (m : Message Number) : Prop where
  updater : updater? m = some fun value => modify (update value)
  replaces : ∀ value row, Replaces m.typeInstance value m.time row (update value row)
  hostname : ∀ value row, (update value row).hostname = row.hostname
  progname : ∀ value row, (update value row).progname = row.progname

/-- Only the updater of the checkouts can raise. -/
theorem updater?_cases {m : Message Number} (hfield : m.typeInstance ∈ statistics) :
    (∃ update, Updates update m) ∨
      m.typeInstance = "checkouts" ∧ updater? m = some (updateTotalCheckouts m.time m.interval) := by
  simp only [statistics, List.mem_cons, List.not_mem_nil, or_false] at hfield
  rcases hfield with hname | hname | hname | hname | hname
  · refine .inl ⟨updateProcessCount, by simp [updater?, hname], fun value row => ?_,
      fun _ _ => rfl, fun _ _ => rfl⟩
    obtain ⟨hself, hothers⟩ := shown_replaced (shown_updateProcessCount value row)
    rw [hname]
    exact ⟨hself, hothers, rfl, .inl rfl, .inl rfl, .inl rfl⟩
  · refine .inl ⟨updateCheckedout, by simp [updater?, hname], fun value row => ?_,
      fun _ _ => rfl, fun _ _ => rfl⟩
    obtain ⟨hself, hothers⟩ := shown_replaced (shown_updateCheckedout value row)
    rw [hname]
    exact ⟨hself, hothers, rfl, .inl rfl, .inl rfl, .inl rfl⟩
  · refine .inl ⟨updateConnectionCount, by simp [updater?, hname], fun value row => ?_,
      fun _ _ => rfl, fun _ _ => rfl⟩
    obtain ⟨hself, hothers⟩ := shown_replaced (shown_updateConnectionCount value row)
    rw [hname]
    exact ⟨hself, hothers, rfl, .inl rfl, .inl rfl, .inl rfl⟩
  · refine .inl ⟨updateTotalConnects, by simp [updater?, hname], fun value row => ?_,
      fun _ _ => rfl, fun _ _ => rfl⟩
    obtain ⟨hself, hothers⟩ := shown_replaced (shown_updateTotalConnects value row)
    rw [hname]
    refine ⟨hself, hothers, rfl, ?_, .inl rfl, .inl rfl⟩
    cases htotal : row.totalConnects with
    | none => exact .inl (by rw [updateTotalConnects, htotal])
    | some total => exact .inr ⟨rfl, total, rfl, by rw [updateTotalConnects, htotal]⟩
  · exact .inr ⟨hname, by simp [updater?, hname]⟩

theorem Updates.receive_eq {update : Number → HostProg → HostProg} {m : Message Number}
    (h : Updates update m) {value : Number} {rest : List Number} (hvalues : m.values = value :: rest)
    (row : HostProg) :
    receive m row = .ok () { update value row with interval := m.interval, lastTime := m.time } := by
  rw [receive, h.updater, hvalues]
  rfl

/-- Whatever `update_total_checkouts` has written stays when it raises. -/
theorem receive_checkouts {m : Message Number}
    (hupdater : updater? m = some (updateTotalCheckouts m.time m.interval))
    {value : Number} {rest : List Number} (hvalues : m.values = value :: rest) (row : HostProg) :
    receive m row = match updateTotalCheckouts m.time m.interval value row with
      | .ok _ row' => .ok () { row' with interval := m.interval, lastTime := m.time }
      | .error e row' => .error e row' := by
  rw [receive, hupdater, hvalues]
  simp only [bind, EStateM.bind]
  cases updateTotalCheckouts m.time m.interval value row <;> rfl

theorem replaces_of_receive {m : Message Number} {value : Number} {rest : List Number}
    (hvalues : m.values = value :: rest) (hfield : m.typeInstance ∈ statistics)
    {row row' : HostProg} (h : receive m row = .ok () row') :
    Replaces m.typeInstance value m.time row row' := by
  obtain ⟨update, hupdate⟩ | ⟨hname, hupdater⟩ := updater?_cases hfield
  · rw [hupdate.receive_eq hvalues] at h
    cases h
    exact (hupdate.replaces value row).stamp m.time m.interval
  · rw [receive_checkouts hupdater hvalues] at h
    cases hupdate : updateTotalCheckouts m.time m.interval value row with
    | error e mid => rw [hupdate] at h; cases h
    | ok _ mid =>
        rw [hupdate] at h
        cases h
        rw [hname]
        refine Replaces.stamp ?_ m.time m.interval
        obtain ⟨hself, hothers⟩ := shown_replaced (shown_updateTotalCheckouts hupdate)
        obtain rfl | ⟨last, total, hlast, htotal, rfl | ⟨rate, hrate, rfl⟩⟩ :=
          updateTotalCheckouts_cases hupdate
        · exact ⟨hself, hothers, rfl, .inl rfl, .inl rfl, .inl rfl⟩
        · exact ⟨hself, hothers, rfl, .inl rfl, .inr ⟨rfl, total, htotal, rfl⟩, .inl rfl⟩
        · exact ⟨hself, hothers, rfl, .inl rfl, .inr ⟨rfl, total, htotal, rfl⟩,
            .inr ⟨rfl, last, total, rate, hlast, htotal, hrate, rfl⟩⟩

/-- A message leaves the other statistics alone. -/
theorem shown_receive {m : Message Number} (hvalues : m.values ≠ []) {row row' : HostProg}
    (h : receive m row = .ok () row') {field : String} (hne : field ≠ m.typeInstance) :
    row'.shown field = row.shown field := by
  obtain ⟨value, rest, hvalues⟩ := List.exists_cons_of_ne_nil hvalues
  by_cases hfield : m.typeInstance ∈ statistics
  · exact (replaces_of_receive hvalues hfield h).others field hne
  · rw [receive_of_not_mem hfield] at h
    cases h
    rfl

theorem clock_receive {m : Message Number} (hvalues : m.values ≠ []) {row row' : HostProg}
    (h : receive m row = .ok () row') (hne : m.typeInstance ≠ "checkouts") :
    row'.lastTotalCheckoutTime = row.lastTotalCheckoutTime := by
  obtain ⟨value, rest, hvalues⟩ := List.exists_cons_of_ne_nil hvalues
  by_cases hfield : m.typeInstance ∈ statistics
  · exact (replaces_of_receive hvalues hfield h).clock.trans (if_neg hne)
  · rw [receive_of_not_mem hfield] at h
    cases h
    rfl

/-- A message is received unless it is about checkouts and not the first. -/
theorem exists_receive {m : Message Number} (hvalues : m.values ≠ []) {row : HostProg}
    (hfirst : m.typeInstance = "checkouts" → row.lastTotalCheckoutTime = none) :
    ∃ row', receive m row = .ok () row' := by
  obtain ⟨value, rest, hvalues⟩ := List.exists_cons_of_ne_nil hvalues
  by_cases hfield : m.typeInstance ∈ statistics
  · obtain ⟨update, hupdate⟩ | ⟨hname, hupdater⟩ := updater?_cases hfield
    · exact ⟨_, hupdate.receive_eq hvalues row⟩
    · have hupdate : updateTotalCheckouts m.time m.interval value row =
          .ok () (row.storeTotalCheckouts m.time value) := by
        rw [updateTotalCheckouts, hfirst hname, Option.getD_none, if_pos rfl]
      rw [receive_checkouts hupdater hvalues, hupdate]
      exact ⟨_, rfl⟩
  · exact ⟨row, receive_of_not_mem hfield row⟩

/-! ### Growth -/

/-- The row is as a message has left it, as far as its statistic goes. -/
structure Holds (row : HostProg) (m : Message Number) : Prop where
  shown : row.shown m.typeInstance = m.values.head?
  clock : m.typeInstance = "checkouts" → row.lastTotalCheckoutTime = some m.time

/-- None of the growth that the row displays is negative. -/
structure NotNegative (row : HostProg) : Prop where
  connects : ∀ x ∈ row.intervalConnects, ∃ d : ℤ, 0 ≤ d ∧ x = .int d
  checkouts : ∀ x ∈ row.intervalCheckouts, ∃ d : ℤ, 0 ≤ d ∧ x = .int d
  rate : ∀ x ∈ row.checkoutsPerSecond, ∃ q, x.value? = some q ∧ 0 ≤ q

/-- A message is held after it was received, until the next for its statistic. -/
theorem holds_receive {m : Message Number} {value : Number} {rest : List Number}
    (hvalues : m.values = value :: rest) (hfield : m.typeInstance ∈ statistics)
    {row row' : HostProg} (h : receive m row = .ok () row') : row'.Holds m := by
  have hreplaces := replaces_of_receive hvalues hfield h
  refine ⟨?_, fun hname => ?_⟩
  · rw [hreplaces.self, hvalues, List.head?_cons]
  · rw [hreplaces.clock, if_pos hname]

theorem Holds.receive {m m' : Message Number} (hvalues : m'.values ≠ [])
    (hne : m.typeInstance ≠ m'.typeInstance) {row row' : HostProg} (hholds : row.Holds m)
    (h : HostProg.receive m' row = .ok () row') : row'.Holds m where
  shown := (shown_receive hvalues h hne).trans hholds.shown
  clock := fun hname => by
    rw [clock_receive hvalues h fun hname' => hne (hname.trans hname'.symm)]
    exact hholds.clock hname

/-- **Growth is not negative** from one message to a later one with a total that is no
smaller. -/
theorem NotNegative.receive {m m' : Message Number} {x x' : ℤ} {row row' : HostProg}
    (hrow : row.NotNegative) (hholds : row.Holds m) (hfield : m.typeInstance = m'.typeInstance)
    (hx : m.values = [.int x]) (hx' : m'.values = [.int x']) (hle : x ≤ x')
    (htime : m.time ≤ m'.time) (h : HostProg.receive m' row = .ok () row') :
    row'.NotNegative := by
  by_cases hmem : m'.typeInstance ∈ statistics
  · have hreplaces := replaces_of_receive hx' hmem h
    have hshown : row.shown m'.typeInstance = some (.int x) := by
      rw [← hfield, hholds.shown, hx, List.head?_cons]
    have hgrown : ∀ {old new : Option Number}, (∀ y ∈ old, ∃ d : ℤ, 0 ≤ d ∧ y = .int d) →
        new = old ∨ new = some (.int x' - .int x) → ∀ y ∈ new, ∃ d : ℤ, 0 ≤ d ∧ y = .int d := by
      intro old new hold hnew
      obtain rfl | rfl := hnew
      · exact hold
      · intro y hy
        exact ⟨x' - x, sub_nonneg.mpr hle, (Option.some.inj hy).symm⟩
    refine ⟨hgrown hrow.connects (hreplaces.connects.imp_right ?_),
      hgrown hrow.checkouts (hreplaces.checkouts.imp_right ?_), ?_⟩
    · intro ⟨hname, total, htotal, hgrowth⟩
      rw [hname] at hshown
      obtain rfl : total = .int x := Option.some.inj (htotal.symm.trans hshown)
      exact hgrowth
    · intro ⟨hname, total, htotal, hgrowth⟩
      rw [hname] at hshown
      obtain rfl : total = .int x := Option.some.inj (htotal.symm.trans hshown)
      exact hgrowth
    · rcases hreplaces.rate with hsame | ⟨hname, last, total, rate, hlast, htotal, hrate, hnew⟩
      · rw [hsame]
        exact hrow.rate
      · rw [hname] at hshown
        obtain rfl : total = .int x := Option.some.inj (htotal.symm.trans hshown)
        obtain rfl : last = m.time :=
          Option.some.inj (hlast.symm.trans (hholds.clock (hfield.trans hname)))
        intro y hy
        rw [hnew] at hy
        obtain rfl : rate = y := Option.some.inj hy
        exact Number.nonneg_trueDiv (sub_nonneg.mpr hle) (sub_nonneg.mpr htime) hrate
  · rw [receive_of_not_mem hmem] at h
    cases h
    exact hrow

end HostProg

end SqlalchemyCollectd
