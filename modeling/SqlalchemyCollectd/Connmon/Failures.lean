import SqlalchemyCollectd.Protocol.Ranges
import SqlalchemyCollectd.Connmon.Relay
import SqlalchemyCollectd.Connmon.Ageing

/-!
# SqlalchemyCollectd.Connmon.Failures

When the monitor fails on a message that was decoded.

Two things can go wrong in `Stat._update`. A values part may announce no values, and
then there is no first one. And the rate of the checkouts is a quotient by the time
since the last message about them, which is guarded by `time_delta >= interval` and by
nothing else: when the interval of the message is not positive and its time is that of
the last one, the quotient is one by zero, and the row is left with a growth that its
total knows nothing of. Nothing else ever raises (`error_of_update`): a row that has a
time for its checkouts has a total as well, and eight bytes are too few for a quotient
to overflow.
-/

namespace SqlalchemyCollectd

namespace HostProg

/-! ### One row -/

/-- What holds of a row after messages in range. -/
structure Sound (row : HostProg) : Prop where
  total : row.lastTotalCheckoutTime.isSome → row.totalCheckouts.isSome
  clock : ∀ last ∈ row.lastTotalCheckoutTime, ∃ t : ℤ, last = t ∧ t.natAbs ≤ 2 ^ 63
  word : ∀ total ∈ row.totalCheckouts, total.Word

/-- The message tells of no time since the last message about checkouts, and of no
interval that would keep the rate from being computed. -/
structure Stands (row : HostProg) (m : Message Number) : Prop where
  time : m.time ≠ 0
  last : row.lastTotalCheckoutTime = some m.time
  interval : m.interval ≤ 0
  total : ∃ total ∈ row.totalCheckouts, Number.lt (.int 0) total

/-- The message has what its updater needs. -/
structure Accepts (row : HostProg) (m : Message Number) : Prop where
  value : m.typeInstance ∈ statistics → m.values ≠ []
  rate : m.typeInstance = "checkouts" → ¬row.Stands m

/-- How `update_total_checkouts` raises. -/
theorem updateTotalCheckouts_error {time interval : ℚ} {value : Number} {row row' : HostProg}
    {e : PyError} (hrow : row.Sound)
    (h : updateTotalCheckouts time interval value row = .error e row') :
    ∃ last total, row.lastTotalCheckoutTime = some last ∧ last ≠ 0 ∧
      row.totalCheckouts = some total ∧ interval ≤ time - last ∧ Number.lt (.int 0) total ∧
      (value - total).trueDiv (time - last) = .error e ∧
      row' = { row with intervalCheckouts := some (value - total) } := by
  unfold updateTotalCheckouts at h
  cases hlast : row.lastTotalCheckoutTime with
  | none => simp [hlast] at h
  | some last =>
      obtain ⟨total, htotal⟩ := Option.isSome_iff_exists.mp (hrow.total (by rw [hlast]; rfl))
      rw [hlast, htotal, Option.getD_some] at h
      by_cases hzero : last = 0
      · rw [if_pos hzero] at h
        cases h
      · rw [if_neg hzero] at h
        dsimp only at h
        split at h
        · rename_i hguard
          cases hrate : (value - total).trueDiv (time - last) with
          | ok rate => rw [hrate] at h; cases h
          | error e' =>
              rw [hrate] at h
              cases h
              exact ⟨last, total, rfl, hzero, htotal, hguard.1, hguard.2, hrate, by rw [htotal]⟩
        · cases h

/-- The quotient by zero. -/
theorem updateTotalCheckouts_stands {m : Message Number} {value : Number} {row : HostProg}
    (h : row.Stands m) : ∃ total, row.totalCheckouts = some total ∧
      updateTotalCheckouts m.time m.interval value row =
        .error .zeroDivisionError { row with intervalCheckouts := some (value - total) } := by
  obtain ⟨total, htotal, hpos⟩ := h.total
  refine ⟨total, htotal, ?_⟩
  have hzero : (value - total).trueDiv 0 = .error .zeroDivisionError := if_pos rfl
  unfold updateTotalCheckouts
  rw [h.last, htotal, Option.getD_some, if_neg h.time]
  dsimp only
  rw [sub_self, if_pos ⟨h.interval, hpos⟩, hzero]

theorem receive_stands {m : Message Number} (hname : m.typeInstance = "checkouts") {value : Number}
    {rest : List Number} (hvalues : m.values = value :: rest) {row : HostProg} (h : row.Stands m) :
    ∃ total, row.totalCheckouts = some total ∧ receive m row =
      .error .zeroDivisionError { row with intervalCheckouts := some (value - total) } := by
  obtain ⟨total, htotal, herror⟩ := updateTotalCheckouts_stands h
  have hupdater : updater? m = some (updateTotalCheckouts m.time m.interval) := by
    simp only [updater?, hname]
  exact ⟨total, htotal, by rw [receive_checkouts hupdater hvalues, herror]⟩

theorem exists_updater {m : Message Number} (hfield : m.typeInstance ∈ statistics) :
    ∃ updater, updater? m = some updater := by
  obtain ⟨_, hupdate⟩ | ⟨-, hupdater⟩ := updater?_cases hfield
  · exact ⟨_, hupdate.updater⟩
  · exact ⟨_, hupdater⟩

/-- When `update_total_checkouts` raises, it is for a quotient by zero. -/
theorem Sound.stands {m : Message Number} (hm : m.InRange) {row row' : HostProg} (hrow : row.Sound)
    {value : Number} (hvalue : value.Word) {e : PyError}
    (h : updateTotalCheckouts m.time m.interval value row = .error e row') :
    row.Stands m ∧ e = .zeroDivisionError ∧
      ∃ growth, row' = { row with intervalCheckouts := growth } := by
  obtain ⟨last, total, hlast, hne, htotal, hguard, hpos, hrate, rfl⟩ :=
    updateTotalCheckouts_error hrow h
  obtain ⟨t, ht, htle⟩ := hm.time
  obtain ⟨t', rfl, ht'le⟩ := hrow.clock last hlast
  -- both times are whole, and so is what lies between them
  have hdelta : m.time - t' = ((t - t' : ℤ) : ℚ) := by rw [ht]; push_cast; rfl
  rw [hdelta] at hrate
  obtain ⟨hzero, rfl⟩ :=
    Number.Word.error_trueDiv hvalue (hrow.word total htotal) (by omega) hrate
  have hsame : m.time = t' := by rw [ht, sub_eq_zero.mp hzero]
  rw [hsame, sub_self] at hguard
  exact ⟨⟨hsame ▸ hne, hsame ▸ hlast, hguard, total, htotal, hpos⟩, rfl, _, rfl⟩

/-- What `_update` does to a sound row: the updater is not known, or the message is held,
or there is no value, or the quotient is one by zero. -/
theorem receive_cases {m : Message Number} (hm : m.InRange) {row : HostProg} (hrow : row.Sound) :
    (m.typeInstance ∉ statistics ∧ receive m row = .ok () row) ∨
    (∃ value rest row', m.values = value :: rest ∧ m.typeInstance ∈ statistics ∧
      receive m row = .ok () row' ∧ Replaces m.typeInstance value m.time row row') ∨
    (m.typeInstance ∈ statistics ∧ m.values = [] ∧ receive m row = .error .indexError row) ∨
    (m.typeInstance = "checkouts" ∧ row.Stands m ∧ ∃ growth,
      receive m row = .error .zeroDivisionError { row with intervalCheckouts := growth }) := by
  by_cases hfield : m.typeInstance ∈ statistics
  · right
    cases hvalues : m.values with
    | nil =>
        obtain ⟨updater, hupdater⟩ := exists_updater hfield
        exact .inr (.inl ⟨hfield, rfl, by rw [receive, hupdater, hvalues]; rfl⟩)
    | cons value rest =>
        cases hreceive : receive m row with
        | ok _ row' =>
            exact .inl ⟨value, rest, row', rfl, hfield, rfl,
              replaces_of_receive hvalues hfield hreceive⟩
        | error e row' =>
            obtain ⟨update, hupdate⟩ | ⟨hname, hupdater⟩ := updater?_cases hfield
            · -- the other four updaters do not raise
              rw [hupdate.receive_eq hvalues] at hreceive
              cases hreceive
            · rw [receive_checkouts hupdater hvalues] at hreceive
              cases hupdate : updateTotalCheckouts m.time m.interval value row with
              | ok _ mid => rw [hupdate] at hreceive; cases hreceive
              | error e' mid =>
                  rw [hupdate] at hreceive
                  cases hreceive
                  have hvalue := hm.values value (by rw [hvalues]; exact List.mem_cons_self)
                  obtain ⟨hstands, rfl, growth, rfl⟩ := hrow.stands hm hvalue hupdate
                  exact .inr (.inr ⟨hname, hstands, growth, rfl⟩)
  · exact .inl ⟨hfield, receive_of_not_mem hfield row⟩

/-- **When a message is held.** -/
theorem receive_ok_iff {m : Message Number} (hm : m.InRange) {row : HostProg} (hrow : row.Sound) :
    (∃ row', receive m row = .ok () row') ↔ row.Accepts m := by
  rcases receive_cases hm hrow with
    ⟨hfield, hok⟩ | ⟨value, rest, row', hvalues, hfield, hok, -⟩ | ⟨hfield, hvalues, herror⟩ |
      ⟨hname, hstands, growth, herror⟩
  · refine ⟨fun _ => ⟨fun h => absurd h hfield, fun hname => ?_⟩, fun _ => ⟨row, hok⟩⟩
    exact absurd (hname ▸ by decide) hfield
  · have hvalue : m.values ≠ [] := by
      rw [hvalues]
      exact List.cons_ne_nil value rest
    refine ⟨fun _ => ⟨fun _ => hvalue, fun hname hstands => ?_⟩, fun _ => ⟨row', hok⟩⟩
    obtain ⟨total, -, herror⟩ := receive_stands hname hvalues hstands
    rw [herror] at hok
    cases hok
  · refine ⟨fun ⟨row', hok⟩ => ?_, fun h => absurd hvalues (h.value hfield)⟩
    rw [herror] at hok
    cases hok
  · refine ⟨fun ⟨row', hok⟩ => ?_, fun h => absurd hstands (h.rate hname)⟩
    rw [herror] at hok
    cases hok

/-! ### Sound rows -/

theorem sound_new (hostname : String) (progname : Option String) :
    Sound { hostname, progname } := ⟨nofun, nofun, nofun⟩

theorem Replaces.totalCheckouts {field : String} {value : Number} {now : ℚ} {row row' : HostProg}
    (h : Replaces field value now row row') : row'.totalCheckouts =
      if field = "checkouts" then some value else row.totalCheckouts := by
  by_cases hname : field = "checkouts"
  · rw [if_pos hname]
    subst hname
    exact h.self
  · rw [if_neg hname]
    exact h.others "checkouts" (Ne.symm hname)

theorem Sound.received {m : Message Number} (hm : m.InRange) {row : HostProg} (hrow : row.Sound) :
    (row.received m).Sound := by
  unfold HostProg.received
  rcases receive_cases hm hrow with
    ⟨-, hok⟩ | ⟨value, rest, row', hvalues, -, hok, hreplaces⟩ | ⟨-, -, herror⟩ |
      ⟨-, -, growth, herror⟩
  · rw [hok]
    exact hrow
  · rw [hok]
    have hclock := hreplaces.clock
    have htotal := hreplaces.totalCheckouts
    by_cases hname : m.typeInstance = "checkouts"
    · -- the total and its time are those of the message now
      rw [if_pos hname] at hclock htotal
      refine ⟨fun _ => by rw [htotal]; rfl, fun last hlast => ?_, fun total hmem => ?_⟩
      · rw [hclock] at hlast
        obtain rfl := Option.some.inj hlast
        exact hm.time
      · rw [htotal] at hmem
        obtain rfl := Option.some.inj hmem
        exact hm.values _ (by rw [hvalues]; exact List.mem_cons_self)
    · rw [if_neg hname] at hclock htotal
      exact ⟨by rw [hclock, htotal]; exact hrow.total, by rw [hclock]; exact hrow.clock,
        by rw [htotal]; exact hrow.word⟩
  · rw [herror]
    exact hrow
  · rw [herror]
    exact ⟨hrow.total, hrow.clock, hrow.word⟩

theorem Sound.killProcesses {row : HostProg} (hrow : row.Sound) : row.killProcesses.Sound :=
  ⟨hrow.total, hrow.clock, hrow.word⟩

end HostProg

namespace Stat

open HostProg

/-- Every row is sound. -/
def RowsSound (st : Stat) : Prop :=
  ∀ hostname progname, ∀ row ∈ st.row? hostname progname, row.Sound

theorem RowsSound.found {st : Stat} (h : st.RowsSound) (hostname : String)
    (progname : Option String) : (st.found hostname progname).Sound := by
  unfold Stat.found
  cases hrow : st.row? hostname progname with
  | none => exact sound_new hostname progname
  | some row => exact h hostname progname row hrow

/-- Every message of a history is in range. -/
def InRange (events : List Event) : Prop := ∀ m, .message m ∈ events → m.InRange

theorem rowsSound_run {events : List Event} (h : InRange events) : (run events).RowsSound :=
  rows_run sound_new (fun m hm _ hrow => hrow.received (h m hm)) fun _ hrow => hrow.killProcesses

/-! ### One message -/

/-- `_update` has returned, and no row has a growth that its total knows nothing of. -/
structure Handled (st : Stat) (m : Message Number) : Prop where
  returns : ∃ st', update m st = .ok () st'
  whole : ∀ hostname progname, ∀ row ∈ (st.step (.message m)).row? hostname progname,
    row.intervalCheckouts = (st.found hostname progname).intervalCheckouts ∨
      row.totalCheckouts = m.values.head? ∧ row.lastTotalCheckoutTime = some m.time

/-- The row of a message accepts it. -/
def Accepts (st : Stat) (m : Message Number) : Prop :=
  (st.found m.host (rowName m.pluginInstance)).Accepts m

section Message

variable {st : Stat} {m : Message Number}

/-- `_update` returns when the updater does. -/
theorem update_returns_iff : (∃ st', update m st = .ok () st') ↔
    ∃ row, receive m (st.found m.host (rowName m.pluginInstance)) = .ok () row := by
  obtain ⟨made, hupdate, -⟩ := update_eq m st
  rw [hupdate, onRow]
  cases receive m (st.found m.host (rowName m.pluginInstance)) with
  | ok _ row => exact ⟨fun _ => ⟨row, rfl⟩, fun _ => ⟨_, rfl⟩⟩
  | error e row => simp

theorem whole_of_receive (hm : m.InRange) (hrows : st.RowsSound) {row' : HostProg}
    (h : receive m (st.found m.host (rowName m.pluginInstance)) = .ok () row') :
    ∀ hostname progname, ∀ row ∈ (st.step (.message m)).row? hostname progname,
      row.intervalCheckouts = (st.found hostname progname).intervalCheckouts ∨
        row.totalCheckouts = m.values.head? ∧ row.lastTotalCheckoutTime = some m.time := by
  intro hostname progname row hrow
  rw [Option.mem_def, row?_message] at hrow
  split at hrow
  · rename_i hname
    obtain ⟨rfl, rfl⟩ := Prod.mk.inj hname
    obtain rfl := Option.some.inj hrow
    rw [HostProg.received, h]
    rcases receive_cases hm (hrows.found m.host (rowName m.pluginInstance)) with
      ⟨-, hok⟩ | ⟨value, rest, row', hvalues, -, hok, hreplaces⟩ | ⟨-, -, herror⟩ |
        ⟨-, -, growth, herror⟩
    · rw [h] at hok
      cases hok
      exact .inl rfl
    · rw [h] at hok
      cases hok
      rcases hreplaces.checkouts with hsame | ⟨hname, -⟩
      · exact .inl hsame
      · refine .inr ?_
        rw [hreplaces.totalCheckouts, hreplaces.clock, if_pos hname, if_pos hname, hvalues]
        exact ⟨rfl, rfl⟩
    · rw [h] at herror
      cases herror
    · rw [h] at herror
      cases herror
  · refine .inl ?_
    rw [found, hrow, Option.getD_some]

/-- **When a message is handled.** -/
theorem handled_iff (hm : m.InRange) (hrows : st.RowsSound) : st.Handled m ↔ st.Accepts m := by
  have hrow := hrows.found m.host (rowName m.pluginInstance)
  constructor
  · intro h
    exact (receive_ok_iff hm hrow).mp (update_returns_iff.mp h.returns)
  · intro h
    obtain ⟨row', hok⟩ := (receive_ok_iff hm hrow).mpr h
    exact ⟨update_returns_iff.mpr ⟨row', hok⟩, whole_of_receive hm hrows hok⟩

/-- **How `_update` fails**, if it does. -/
theorem error_of_update (hm : m.InRange) (hrows : st.RowsSound) {e : PyError} {st' : Stat}
    (h : update m st = .error e st') : e = .indexError ∨ e = .zeroDivisionError := by
  obtain ⟨made, hupdate, -⟩ := update_eq m st
  rw [hupdate, onRow] at h
  rcases receive_cases hm (hrows.found m.host (rowName m.pluginInstance)) with
    ⟨-, hok⟩ | ⟨_, _, _, -, -, hok, -⟩ | ⟨-, -, herror⟩ | ⟨-, -, _, herror⟩
  · rw [hok] at h
    cases h
  · rw [hok] at h
    cases h
  · rw [herror] at h
    cases h
    exact .inl rfl
  · rw [herror] at h
    cases h
    exact .inr rfl

end Message

/-! ### Runs -/

/-- A message that `unpack_bytes` of the monitor can return. -/
def Decodable (m : Message Number) : Prop :=
  ∃ buf, unpackBytes monitorTypes buf = some (.ok (some m))

/-- **When the monitor never fails.** In a run of messages that were decoded, and of
passes at any times, every message is handled exactly when every message has a value,
if there is an updater for it, and none about checkouts repeats the time of the last
with an interval that is not positive. What is raised otherwise is a missing index or a
division by zero. -/
theorem never_fails_iff {events : List Event}
    (hdecoded : ∀ m, .message m ∈ events → Decodable m) :
    ((∀ before m, before ++ [.message m] <+: events → (run before).Handled m) ↔
      ∀ before m, before ++ [.message m] <+: events → (run before).Accepts m) ∧
    ∀ before m, before ++ [.message m] <+: events → ∀ e st,
      update m (run before) = .error e st → e = .indexError ∨ e = .zeroDivisionError := by
  have hrange : InRange events := by
    intro m hm
    obtain ⟨buf, hbuf⟩ := hdecoded m hm
    exact inRange_of_unpackBytes hbuf
  have hprefix : ∀ {before m}, before ++ [.message m] <+: events →
      m.InRange ∧ (run before).RowsSound := by
    intro before m h
    refine ⟨hrange m (h.subset (List.mem_append_right _ List.mem_cons_self)), ?_⟩
    exact rowsSound_run fun m' hm' => hrange m' (h.subset (List.mem_append_left _ hm'))
  constructor
  · refine forall_congr' fun before => forall_congr' fun m => imp_congr_right fun h => ?_
    obtain ⟨hm, hrows⟩ := hprefix h
    exact handled_iff hm hrows
  · intro before m h e st herror
    obtain ⟨hm, hrows⟩ := hprefix h
    exact error_of_update hm hrows herror

/-- What collectd has to say about the checkouts of a program, twice a second. -/
def checkouts (total : ℤ) : Values Number where
  type := "derive"
  typeInstance := "checkouts"
  plugin := "sqlalchemy"
  pluginInstance := "web"
  host := "h1"
  time := some 1000
  interval := 1 / 2
  values := [.int total]

/-- What arrives of it: the packer truncates the interval. -/
def arrived (total : ℤ) : Message Number :=
  ⟨"derive", "checkouts", "sqlalchemy", "web", "h1", 1000, 0, [.int total]⟩

theorem decodable_of_relay {v : Values Number} {m : Message Number}
    (h : relay v = some (.ok (some m))) : Decodable m := by
  unfold relay at h
  split at h
  · exact ⟨_, h⟩
  · cases h

/-- The checkouts of a program ten seconds apart, and a pass in between. -/
def tenSeconds : List Event :=
  [.message { arrived 10 with interval := 10 }, .pass 1005,
    .message { arrived 15 with interval := 10, time := 1010 }]

theorem never_fails_iff_tenSeconds :
    (∀ before m, before ++ [.message m] <+: tenSeconds → (run before).Handled m) ∧
      ((run tenSeconds).hostprogs.get? ("h1", "web")).map
          (fun row => (row.intervalCheckouts, row.totalCheckouts)) =
        some (some (.int 5), some (.int 15)) := by
  have hdecoded : ∀ m, Event.message m ∈ tenSeconds → Decodable m := by
    intro m hm
    simp only [tenSeconds, List.mem_cons, Event.message.injEq, reduceCtorEq, List.not_mem_nil,
      or_false, false_or] at hm
    rcases hm with rfl | rfl
    · exact decodable_of_relay (v := { checkouts 10 with interval := 10 }) (by decide +kernel)
    · exact decodable_of_relay (v := { checkouts 15 with interval := 10, time := some 1010 })
        (by decide +kernel)
  refine ⟨(never_fails_iff hdecoded).1.mpr fun before m h => ?_, by decide +kernel⟩
  have hinterval : m.interval = 10 ∧ m.values ≠ [] := by
    have hm : Event.message m ∈ tenSeconds :=
      h.subset (List.mem_append_right _ List.mem_cons_self)
    simp only [tenSeconds, List.mem_cons, Event.message.injEq, reduceCtorEq, List.not_mem_nil,
      or_false, false_or] at hm
    rcases hm with rfl | rfl <;> exact ⟨rfl, List.cons_ne_nil _ _⟩
  refine ⟨fun _ => hinterval.2, fun _ hstands => ?_⟩
  have hle := hstands.interval
  rw [hinterval.1] at hle
  norm_num at hle

/-- The second message of a second. -/
def sameSecond : List Event := [.message (arrived 10), .message (arrived 15)]

/-- A message of the type `count` about the number of processes, without a value, part by
part. -/
def valueless : List Struct.Bytes :=
  [[0, 0, 0, 6, 104, 0], [0, 1, 0, 12, 0, 0, 0, 0, 0, 0, 0, 70], [0, 2, 0, 6, 112, 0],
    [0, 3, 0, 6, 119, 0], [0, 4, 0, 10, 99, 111, 117, 110, 116, 0],
    [0, 5, 0, 13, 110, 117, 109, 112, 114, 111, 99, 115, 0], [0, 6, 0, 6, 0, 0],
    [0, 7, 0, 12, 0, 0, 0, 0, 0, 0, 0, 10]]

/-- The exception of `_update`, if it raises. -/
def raised? (m : Message Number) (st : Stat) : Option PyError :=
  match update m st with
  | .ok _ _ => none
  | .error e _ => some e

theorem not_handled_of_raised {m : Message Number} {st : Stat} (h : (raised? m st).isSome) :
    ¬st.Handled m := by
  intro ⟨⟨st', hok⟩, _⟩
  rw [raised?, hok] at h
  cases h

/-- The quotient is one by zero, the growth is from 10 to 15 and the total still 10; and a
message without a value has no first one. -/
theorem fails_sameSecond :
    (∀ m, .message m ∈ sameSecond → Decodable m) ∧
      ¬(run [.message (arrived 10)]).Handled (arrived 15) ∧
      ((run sameSecond).hostprogs.get? ("h1", "web")).map
          (fun row => (row.intervalCheckouts, row.totalCheckouts)) =
        some (some (.int 5), some (.int 10)) ∧
      ∃ m, Decodable m ∧ ¬(run []).Handled m := by
  refine ⟨?_, not_handled_of_raised (by decide +kernel), by decide +kernel,
    ⟨"count", "numprocs", "p", "w", "h", 70, 10, []⟩,
    ⟨valueless.flatten, by decide +kernel⟩,
    not_handled_of_raised (by decide +kernel)⟩
  intro m hm
  simp only [sameSecond, List.mem_cons, Event.message.injEq, List.not_mem_nil, or_false] at hm
  rcases hm with rfl | rfl
  · exact decodable_of_relay (v := checkouts 10) (by decide +kernel)
  · exact decodable_of_relay (v := checkouts 15) (by decide +kernel)

end Stat

end SqlalchemyCollectd
