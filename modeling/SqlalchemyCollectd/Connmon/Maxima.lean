import Mathlib.Order.Bounds.Basic
import SqlalchemyCollectd.Connmon.Ageing

/-!
# SqlalchemyCollectd.Connmon.Maxima

The maxima of the monitor's display, "max since monitor started".

They are kept in the rows. While a row is there, each of its three maxima is the
greatest of the values received for it, which no pass changes: a stale row loses its
counts and keeps its maxima. But a row that is removed takes them along, and the one
that a later message makes in its place starts again at 0. So the maxima are those
since the start exactly as long as no row is made anew for which something greater
was received before (`maxima_iff`).
-/

namespace SqlalchemyCollectd

namespace Number

/-- A number that is not negative; NaN is not. -/
def NonNeg (x : Number) : Prop := ∃ q, x.value? = some q ∧ 0 ≤ q

theorem value?_pyMax {a b : Number} {p q : WithBot (WithTop ℚ)} (ha : a.value? = some p)
    (hb : b.value? = some q) : (a.pyMax b).value? = some (max p q) := by
  unfold pyMax lt
  rw [ha, hb]
  by_cases hlt : p < q
  · simp [hlt, hb, hlt.le]
  · simp [hlt, ha, not_lt.mp hlt]

end Number

namespace HostProg

/-- The statistics of which the maximum is displayed. -/
def peaks : List String := ["numprocs", "checkedout", "connections"]

/-- The maximum of one of them. -/
def maximum (row : HostProg) : String → Number
  | "numprocs" => row.maxProcessCount
  | "checkedout" => row.maxCheckedout
  | "connections" => row.maxConnections
  | _ => .int 0

/-- What a message brings for a statistic, 0 if it is about another. -/
def brings (m : Message Number) (field : String) : WithBot (WithTop ℚ) :=
  if m.typeInstance = field then ((m.values.head?).bind Number.value?).getD 0 else 0

theorem maximum_congr {row row' : HostProg} (hprocesses : row'.maxProcessCount = row.maxProcessCount)
    (hcheckedout : row'.maxCheckedout = row.maxCheckedout)
    (hconnections : row'.maxConnections = row.maxConnections) (field : String) :
    row'.maximum field = row.maximum field := by
  unfold maximum
  split
  · exact hprocesses
  · exact hcheckedout
  · exact hconnections
  · rfl

theorem maximum_killProcesses (row : HostProg) (field : String) :
    row.killProcesses.maximum field = row.maximum field :=
  maximum_congr rfl rfl rfl field

theorem maximum_new (hostname : String) (progname : Option String) (field : String) :
    ({ hostname, progname } : HostProg).maximum field = .int 0 := by
  unfold maximum
  split <;> rfl

theorem maximum_updateProcessCount (value : Number) (row : HostProg) (field : String) :
    (updateProcessCount value row).maximum field =
      if field = "numprocs" then value.pyMax (row.maximum field) else row.maximum field := by
  unfold maximum
  split <;> simp_all [updateProcessCount]

theorem maximum_updateCheckedout (value : Number) (row : HostProg) (field : String) :
    (updateCheckedout value row).maximum field =
      if field = "checkedout" then (row.maximum field).pyMax value else row.maximum field := by
  unfold maximum
  split <;> simp_all [updateCheckedout]

theorem maximum_updateConnectionCount (value : Number) (row : HostProg) (field : String) :
    (updateConnectionCount value row).maximum field =
      if field = "connections" then (row.maximum field).pyMax value else row.maximum field := by
  unfold maximum
  split <;> simp_all [updateConnectionCount]

section Updaters

variable {m : Message Number} {update : Number → HostProg → HostProg} {value : Number}
  {rest : List Number}

/-- What is stamped on the row after its updater leaves the maxima alone. -/
theorem maximum_received_of_modify
    (hupdater : updater? m = some fun value => modify (update value))
    (hvalues : m.values = value :: rest) (row : HostProg) (field : String) :
    (row.received m).maximum field = (update value row).maximum field := by
  rw [received_of_modify hupdater hvalues]
  exact maximum_congr rfl rfl rfl field

/-- The updater of a gauge takes the value in at the maximum of its own statistic. -/
theorem maximum_received_of_gauge
    (hupdater : updater? m = some fun value => modify (update value))
    (hvalues : m.values = value :: rest) {row : HostProg} {field name : String} {taken : Number}
    (hname : m.typeInstance = name)
    (hgauge : (update value row).maximum field =
      if field = name then taken else row.maximum field) :
    (row.received m).maximum field =
      if m.typeInstance = field then taken else row.maximum field := by
  rw [maximum_received_of_modify hupdater hvalues, hgauge, hname]
  simp only [eq_comm]

end Updaters

/-- The maximum of the statistic that a message is about takes its value in, and the
others stay. -/
theorem maximum_received {m : Message Number} {value : Number} {rest : List Number}
    (hvalues : m.values = value :: rest) (row : HostProg) {field : String}
    (hfield : field ∈ peaks) :
    ∃ taken, (taken = value.pyMax (row.maximum field) ∨ taken = (row.maximum field).pyMax value) ∧
      (row.received m).maximum field =
        if m.typeInstance = field then taken else row.maximum field := by
  by_cases hmem : m.typeInstance ∈ statistics
  · simp only [statistics, List.mem_cons, List.not_mem_nil, or_false] at hmem
    rcases hmem with hname | hname | hname | hname | hname
    · have hupdater : updater? m = some fun value => modify (updateProcessCount value) := by
        simp only [updater?, hname]
      exact ⟨_, Or.inl rfl, maximum_received_of_gauge hupdater hvalues hname
        (maximum_updateProcessCount value row field)⟩
    · have hupdater : updater? m = some fun value => modify (updateCheckedout value) := by
        simp only [updater?, hname]
      exact ⟨_, Or.inr rfl, maximum_received_of_gauge hupdater hvalues hname
        (maximum_updateCheckedout value row field)⟩
    · have hupdater : updater? m = some fun value => modify (updateConnectionCount value) := by
        simp only [updater?, hname]
      exact ⟨_, Or.inr rfl, maximum_received_of_gauge hupdater hvalues hname
        (maximum_updateConnectionCount value row field)⟩
    -- the two counters have no maximum
    · have hupdater : updater? m = some fun value => modify (updateTotalConnects value) := by
        simp only [updater?, hname]
      have hne : m.typeInstance ≠ field := by
        rintro rfl
        simp [hname, peaks] at hfield
      refine ⟨_, Or.inl rfl, ?_⟩
      rw [maximum_received_of_modify hupdater hvalues, if_neg hne]
      exact maximum_congr rfl rfl rfl field
    · have hupdater : updater? m = some (updateTotalCheckouts m.time m.interval) := by
        simp only [updater?, hname]
      have hne : m.typeInstance ≠ field := by
        rintro rfl
        simp [hname, peaks] at hfield
      obtain ⟨_, _, _, _, _, _, hreceived⟩ := received_checkouts hupdater row
      refine ⟨_, Or.inl rfl, ?_⟩
      rw [hreceived, if_neg hne]
      exact maximum_congr rfl rfl rfl field
  · have hne : m.typeInstance ≠ field := by
      rintro rfl
      simp only [peaks, List.mem_cons, List.not_mem_nil, or_false] at hfield
      rcases hfield with hname | hname | hname <;> simp [hname, statistics] at hmem
    refine ⟨_, Or.inl rfl, ?_⟩
    rw [received_of_not_mem hmem, if_neg hne]

/-- **A message raises the maximum** of its statistic to its value, if that is greater. -/
theorem value?_maximum_received {m : Message Number} (hvalues : ∀ value ∈ m.values, value.NonNeg)
    {row : HostProg} {field : String} {top : WithBot (WithTop ℚ)} (hfield : field ∈ peaks)
    (htop : (row.maximum field).value? = some top) (hpos : 0 ≤ top) :
    ((row.received m).maximum field).value? = some (max top (brings m field)) := by
  cases hm : m.values with
  | nil =>
      have hbrings : brings m field = 0 := by simp [brings, hm]
      rw [received_of_nil hm, hbrings, max_eq_left hpos, htop]
  | cons value rest =>
      obtain ⟨q, hq, -⟩ := hvalues value (by rw [hm]; exact List.mem_cons_self)
      obtain ⟨taken, htaken, hmaximum⟩ := maximum_received hm row hfield
      by_cases hname : m.typeInstance = field
      · have hbrings : brings m field = q := by simp [brings, hname, hm, hq]
        rw [hmaximum, if_pos hname, hbrings]
        rcases htaken with rfl | rfl
        · rw [Number.value?_pyMax hq htop, max_comm]
        · exact Number.value?_pyMax htop hq
      · have hbrings : brings m field = 0 := if_neg hname
        rw [hmaximum, if_neg hname, hbrings, max_eq_left hpos, htop]

end HostProg

namespace Stat

open HostProg

/-- None of the values received is negative. -/
def NonNegative (events : List Event) : Prop :=
  ∀ m, .message m ∈ events → ∀ value ∈ m.values, value.NonNeg

/-- The values of a statistic that were received for a row in a history. -/
def valuesFor (events : List Event) (name : String × Option String) (field : String) :
    Set (WithBot (WithTop ℚ)) :=
  {q | ∃ m, .message m ∈ events ∧ addressee m = name ∧ m.typeInstance = field ∧
    m.values.head?.bind Number.value? = some q}

/-- Every row that is there shows the maxima since the start: the greatest of the values
that were received for it, and at least 0. -/
def MaximaSince (events : List Event) (st : Stat) : Prop :=
  ∀ hostname progname, ∀ row ∈ st.row? hostname progname, ∀ field ∈ peaks,
    ∃ top, (row.maximum field).value? = some top ∧
      IsGreatest (insert 0 (valuesFor events (hostname, progname) field)) top

/-! ### Histories -/

theorem valuesFor_pass (events : List Event) (now : ℚ) (name : String × Option String)
    (field : String) : valuesFor (events ++ [.pass now]) name field = valuesFor events name field := by
  simp [valuesFor]

theorem valuesFor_message (events : List Event) (m : Message Number)
    (name : String × Option String) (field : String) :
    valuesFor (events ++ [.message m]) name field = valuesFor events name field ∪
      {q | addressee m = name ∧ m.typeInstance = field ∧
        m.values.head?.bind Number.value? = some q} := by
  ext q
  simp only [valuesFor, List.mem_append, List.mem_singleton, Event.message.injEq,
    Set.mem_union, Set.mem_ofPred_eq]
  refine ⟨?_, ?_⟩
  · intro ⟨m', hm', hrest⟩
    rcases hm' with hm' | rfl
    · exact Or.inl ⟨m', hm', hrest⟩
    · exact Or.inr hrest
  · intro h
    rcases h with ⟨m', hm', hrest⟩ | hrest
    · exact ⟨m', Or.inl hm', hrest⟩
    · exact ⟨m, Or.inr rfl, hrest⟩

theorem valuesFor_of_ne {events : List Event} {m : Message Number}
    {name : String × Option String} (h : addressee m ≠ name) (field : String) :
    valuesFor (events ++ [.message m]) name field = valuesFor events name field := by
  simp [valuesFor_message, h]

theorem zero_le_brings {m : Message Number} (hvalues : ∀ value ∈ m.values, value.NonNeg)
    (field : String) : 0 ≤ brings m field := by
  unfold brings
  split
  · cases hm : m.values with
    | nil => exact le_rfl
    | cons value rest =>
        obtain ⟨q, hq, hpos⟩ := hvalues value (by rw [hm]; exact List.mem_cons_self)
        simpa [hq] using hpos
  · exact le_rfl

/-- The values of the addressee and 0, after the message. -/
theorem insert_valuesFor_message (events : List Event) (m : Message Number) (field : String) :
    insert 0 (valuesFor (events ++ [.message m]) (addressee m) field) =
      insert (brings m field) (insert 0 (valuesFor events (addressee m) field)) := by
  rw [valuesFor_message]
  by_cases hname : m.typeInstance = field
  · cases hvalue : m.values.head?.bind Number.value? with
    | none =>
        have hbrings : brings m field = 0 := by rw [brings, if_pos hname, hvalue, Option.getD_none]
        simp [hbrings]
    | some q =>
        have hbrings : brings m field = q := by rw [brings, if_pos hname, hvalue, Option.getD_some]
        ext p
        simp only [hname, hbrings, Set.mem_insert_iff, Set.mem_union, Set.mem_ofPred_eq,
          Option.some.injEq, true_and]
        grind
  · simp [brings, hname]

/-- The maximum of a row after a message, if it was right before it. -/
theorem isGreatest_message {events : List Event} {m : Message Number} {field : String}
    {top : WithBot (WithTop ℚ)}
    (h : IsGreatest (insert 0 (valuesFor events (addressee m) field)) top) :
    IsGreatest (insert 0 (valuesFor (events ++ [.message m]) (addressee m) field))
      (max top (brings m field)) := by
  rw [insert_valuesFor_message, max_comm]
  exact h.insert _

/-- What a message brings is the maximum since the start unless more was received before. -/
theorem isGreatest_brings_iff {events : List Event} {m : Message Number}
    (hvalues : ∀ value ∈ m.values, value.NonNeg) (field : String) :
    IsGreatest (insert 0 (valuesFor (events ++ [.message m]) (addressee m) field))
        (brings m field) ↔
      ∀ q ∈ valuesFor events (addressee m) field, q ≤ brings m field := by
  rw [insert_valuesFor_message]
  simp [IsGreatest, mem_upperBounds, zero_le_brings hvalues]

/-! ### One step -/

/-- A message of which the row was not there: what was received for it before is not
greater than what the message brings itself. -/
def Covers (events : List Event) (m : Message Number) : Prop :=
  ∀ field ∈ peaks, ∀ q ∈ valuesFor events (addressee m) field, q ≤ brings m field

theorem MaximaSince.pass {events : List Event} {st : Stat} (h : MaximaSince events st)
    (hkeyed : st.Keyed) (now : ℚ) :
    MaximaSince (events ++ [.pass now]) (st.step (.pass now)) := by
  intro hostname progname row hrow field hfield
  rw [valuesFor_pass]
  obtain ⟨old, hold, rfl | rfl⟩ := exists_of_row?_pass hkeyed hrow
  · exact h hostname progname _ hold field hfield
  · rw [maximum_killProcesses]
    exact h hostname progname old hold field hfield

section Message

variable {events : List Event} {st : Stat} {m : Message Number}

/-- The row of a message that was not there before. -/
theorem row?_message_of_none (hnew : st.row? m.host (rowName m.pluginInstance) = none) :
    (st.step (.message m)).row? m.host (rowName m.pluginInstance) =
      some (received m { hostname := m.host, progname := rowName m.pluginInstance }) := by
  rw [row?_message, addressee, if_pos rfl, found, hnew, Option.getD_none]

theorem value?_maximum_of_none (hvalues : ∀ value ∈ m.values, value.NonNeg) {hostname : String}
    {progname : Option String} {field : String} (hfield : field ∈ peaks) :
    ((received m { hostname, progname }).maximum field).value? = some (brings m field) := by
  have hzero : (maximum { hostname, progname } field).value? = some 0 := by
    rw [maximum_new]
    rfl
  rw [value?_maximum_received hvalues hfield hzero le_rfl, max_eq_right (zero_le_brings hvalues _)]

theorem MaximaSince.message (h : MaximaSince events st)
    (hvalues : ∀ value ∈ m.values, value.NonNeg)
    (hcovers : st.row? m.host (rowName m.pluginInstance) = none → Covers events m) :
    MaximaSince (events ++ [.message m]) (st.step (.message m)) := by
  intro hostname progname row hrow field hfield
  by_cases hname : addressee m = (hostname, progname)
  · obtain ⟨rfl, rfl⟩ := Prod.mk.inj hname
    cases hold : st.row? m.host (rowName m.pluginInstance) with
    | none =>
        -- the row is new, and knows of nothing from before
        rw [Option.mem_def, row?_message_of_none hold] at hrow
        obtain rfl := Option.some.inj hrow
        exact ⟨_, value?_maximum_of_none hvalues hfield,
          (isGreatest_brings_iff hvalues field).mpr (hcovers hold field hfield)⟩
    | some old =>
        obtain ⟨top, htop, hgreatest⟩ := h _ _ old hold field hfield
        rw [Option.mem_def, row?_message, addressee, if_pos rfl, found, hold,
          Option.getD_some] at hrow
        obtain rfl := Option.some.inj hrow
        have hpos : 0 ≤ top := hgreatest.2 (Set.mem_insert 0 _)
        exact ⟨_, value?_maximum_received hvalues hfield htop hpos, isGreatest_message hgreatest⟩
  · rw [Option.mem_def, row?_message, if_neg (Ne.symm hname)] at hrow
    rw [valuesFor_of_ne hname]
    exact h hostname progname row hrow field hfield

/-- A row made anew shows too little when more was received for it before. -/
theorem MaximaSince.covers (h : MaximaSince (events ++ [.message m]) (st.step (.message m)))
    (hvalues : ∀ value ∈ m.values, value.NonNeg)
    (hnew : st.row? m.host (rowName m.pluginInstance) = none) : Covers events m := by
  intro field hfield
  obtain ⟨top, htop, hgreatest⟩ := h _ _ _ (row?_message_of_none hnew) field hfield
  rw [value?_maximum_of_none hvalues hfield] at htop
  obtain rfl := Option.some.inj htop
  exact (isGreatest_brings_iff hvalues field).mp hgreatest

end Message

/-! ### Runs -/

theorem maximaSince_nil : MaximaSince [] (run []) := by
  rintro hostname (_ | progname) row hrow <;> cases hrow

/-- **When the maxima are those since the start.** In a run in which nothing negative is
received, every row shows in every state the greatest values that were received for it,
exactly when no message makes a row for which more was received before than the
message itself brings. -/
theorem maxima_iff {events : List Event} (hvalues : NonNegative events) :
    (∀ before, before <+: events → MaximaSince before (run before)) ↔
      ∀ before m, before ++ [.message m] <+: events →
        (run before).row? m.host (rowName m.pluginInstance) = none → Covers before m := by
  constructor
  · intro h before m hprefix hnew
    have hm : .message m ∈ events :=
      hprefix.subset (List.mem_append_right _ List.mem_cons_self)
    exact (run_append before _ ▸ h _ hprefix).covers (hvalues m hm) hnew
  · intro h before hprefix
    induction before using List.reverseRecOn with
    | nil => exact maximaSince_nil
    | append_singleton before event ih =>
        have hbefore := ih ((List.prefix_append before _).trans hprefix)
        rw [run_append]
        cases event with
        | pass now => exact hbefore.pass (keyed_run before) now
        | message m =>
            -- the condition matters only where the row is made anew
            have hm : .message m ∈ events :=
              hprefix.subset (List.mem_append_right _ List.mem_cons_self)
            exact hbefore.message (hvalues m hm) (h before m hprefix)

/-- A program reports its number of processes, by a gauge. -/
def processes (time : ℚ) (n : ℤ) : Event :=
  .message ⟨"count", "numprocs", "sqlalchemy", "web", "h1", time, 10, [.float (Float.nearest n)]⟩

theorem nonNegative_processes {time : ℚ} {n : ℤ} (hn : 0 ≤ n) (hsmall : n.natAbs < 2 ^ 53)
    {m : Message Number} (h : .message m = processes time n) :
    ∀ value ∈ m.values, value.NonNeg := by
  unfold processes at h
  obtain rfl := Event.message.inj h
  intro value hvalue
  obtain rfl := List.mem_singleton.mp hvalue
  refine ⟨_, Float.value?_nearest hsmall, ?_⟩
  exact_mod_cast hn

/-- Three processes, a pass, and one process. -/
def shrinking : List Event := [processes 1000 3, .pass 1005, processes 1010 1]

theorem maxima_iff_shrinking : MaximaSince shrinking (run shrinking) := by
  have hvalues : NonNegative shrinking := by
    intro m hm
    simp only [shrinking, List.mem_cons, List.not_mem_nil, or_false, reduceCtorEq,
      false_or] at hm
    rcases hm with hm | hm
    · exact nonNegative_processes (by decide) (by decide) hm
    · exact nonNegative_processes (by decide) (by decide) hm
  refine (maxima_iff hvalues).mpr (fun before m hprefix hnew => ?_) _ List.prefix_rfl
  obtain ⟨rest, hsplit⟩ := hprefix
  match before with
  | [] =>
      -- nothing was received before the first message
      intro field _ q hq
      obtain ⟨m', hm', -⟩ := hq
      cases hm'
  | [first, second] =>
      obtain ⟨rfl, rfl, hm, -⟩ : first = processes 1000 3 ∧ second = .pass 1005 ∧
          Event.message m = processes 1010 1 ∧ rest = [] := by
        simpa [shrinking] using hsplit
      obtain rfl := Event.message.inj hm
      -- the pass has left the row there
      have hthere : ((run [processes 1000 3, .pass 1005]).row? "h1" (rowName "web")).isSome := by
        decide +kernel
      exact absurd hnew (Option.ne_none_iff_isSome.mpr hthere)
  | [first] => simp [shrinking] at hsplit
  | first :: second :: third :: before => simp [shrinking] at hsplit

/-- Three processes, a silence in which the row is removed, and one process. -/
def returning : List Event := [processes 1000 3, .pass 2000, processes 2000 1]

/-- The row says that there has been one process at most since the monitor started. -/
theorem maxima_lost_returning :
    NonNegative returning ∧ ¬MaximaSince returning (run returning) ∧
      ((run returning).hostprogs.get? ("h1", "web")).map HostProg.maxProcessCount =
        some (.float (Float.nearest 1)) := by
  have hvalues : NonNegative returning := by
    intro m hm
    simp only [returning, List.mem_cons, List.not_mem_nil, or_false, reduceCtorEq,
      false_or] at hm
    rcases hm with hm | hm
    · exact nonNegative_processes (by decide) (by decide) hm
    · exact nonNegative_processes (by decide) (by decide) hm
  have hshown : ((run returning).hostprogs.get? ("h1", "web")).map HostProg.maxProcessCount =
      some (.float (Float.nearest 1)) := by
    decide +kernel
  refine ⟨hvalues, fun h => ?_, hshown⟩
  -- it would have to be 3
  obtain ⟨row, hrow, hmax⟩ := Option.map_eq_some_iff.mp hshown
  obtain ⟨top, htop, hgreatest⟩ := h "h1" (some "web") row hrow "numprocs" List.mem_cons_self
  have hone : top = ((1 : ℚ) : WithTop ℚ) := by
    have hvalue : row.maxProcessCount.value? = some top := htop
    rw [hmax, Number.value?, Float.value?_nearest (by decide)] at hvalue
    exact_mod_cast (Option.some.inj hvalue).symm
  have hthree : ((3 : ℚ) : WithTop ℚ) ≤ top :=
    hgreatest.2 (Set.mem_insert_of_mem _ ⟨_, List.mem_cons_self, rfl, rfl, by
      exact_mod_cast Float.value?_nearest (n := 3) (by decide)⟩)
  rw [hone] at hthree
  norm_cast at hthree

end Stat

end SqlalchemyCollectd
