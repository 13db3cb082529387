import SqlalchemyCollectd.Connmon.Rows

/-!
# SqlalchemyCollectd.Connmon.Delivery

What a `Stat` shows after messages have been delivered to it.

One message writes one row, found by its addressee (`update_ok`). Messages about
different subjects, a subject being a row with one of its statistics, do not get in
each other's way: each is received without an exception, and in the end the rows are
those that were addressed and show what was delivered (`delivered_forM`). Nothing
depends on the order of the messages.
-/

namespace SqlalchemyCollectd

namespace Stat

/-! ### Rows -/

theorem row?_setRow (hostname : String) (progname : Option String) (row : HostProg) (st : Stat)
    (hostname' : String) (progname' : Option String) :
    (st.setRow hostname progname row).row? hostname' progname' =
      if (hostname', progname') = (hostname, progname) then some row
      else st.row? hostname' progname' := by
  cases progname with
  | none =>
      cases progname' with
      | none => simp [row?, setRow, OrderedDict.get?_set]
      | some progname' => simp [row?, setRow]
  | some progname =>
      cases progname' with
      | none => simp [row?, setRow]
      | some progname' => simp [row?, setRow, OrderedDict.get?_set]

/-- The row a message is for: a host, and a program or the host itself. -/
def addressee (m : Message Number) : String × Option String := (m.host, rowName m.pluginInstance)

/-- The row that the updaters get to see: a new one for a new addressee. -/
def found (hostname : String) (progname : Option String) (st : Stat) : HostProg :=
  (st.row? hostname progname).getD { hostname, progname }

/-- `_update` lets the updater work on the row it has found or made. -/
theorem update_eq (m : Message Number) (st : Stat) :
    ∃ made, update m st = onRow m.host (rowName m.pluginInstance)
        (st.found m.host (rowName m.pluginInstance)) (HostProg.receive m) made ∧
      (∀ row hostname progname,
        (made.setRow m.host (rowName m.pluginInstance) row).row? hostname progname =
          if (hostname, progname) = addressee m then some row else st.row? hostname progname) ∧
      (made = st ∨ ∃ row, made = st.setRow m.host (rowName m.pluginInstance) row) := by
  unfold found
  cases hrow : st.row? m.host (rowName m.pluginInstance) with
  | some old =>
      refine ⟨st, ?_, fun row => row?_setRow _ _ row st, Or.inl rfl⟩
      simp only [update, getHostprog, bind, EStateM.bind, get, getThe, MonadStateOf.get,
        EStateM.get, hrow, pure, EStateM.pure, Option.getD_some]
  | none =>
      refine ⟨st.setRow m.host (rowName m.pluginInstance)
        { hostname := m.host, progname := rowName m.pluginInstance }, ?_,
        fun row hostname progname => ?_, Or.inr ⟨_, rfl⟩⟩
      · simp only [update, getHostprog, bind, EStateM.bind, get, getThe, MonadStateOf.get,
          EStateM.get, hrow, pure, EStateM.pure, modify, modifyGet, MonadStateOf.modifyGet,
          EStateM.modifyGet, Option.getD_none]
      · rw [row?_setRow, row?_setRow]
        by_cases hname : (hostname, progname) = (m.host, rowName m.pluginInstance)
        · rw [if_pos hname, addressee, if_pos hname]
        · rw [if_neg hname, if_neg hname, addressee, if_neg hname]

/-- **One message writes one row**, which is there from then on. -/
theorem update_ok {m : Message Number} {st : Stat} {row : HostProg}
    (h : HostProg.receive m (st.found m.host (rowName m.pluginInstance)) = .ok () row) :
    ∃ st', update m st = .ok () st' ∧ ∀ hostname progname,
      st'.row? hostname progname =
        if (hostname, progname) = addressee m then some row else st.row? hostname progname := by
  obtain ⟨made, hupdate, hrows, -⟩ := update_eq m st
  refine ⟨made.setRow m.host (rowName m.pluginInstance) row, ?_, hrows row⟩
  rw [hupdate, onRow, h]

/-! ### Deliveries -/

/-- The display of messages that have been delivered: the rows are those that were
addressed, they hold what was delivered, and they show nothing else. -/
structure Delivered (ms : List (Message Number)) (st : Stat) : Prop where
  rows : ∀ hostname progname,
    (st.row? hostname progname).isSome ↔ ∃ m ∈ ms, addressee m = (hostname, progname)
  holds : ∀ m ∈ ms, m.typeInstance ∈ HostProg.statistics →
    ∃ row ∈ st.row? m.host (rowName m.pluginInstance), row.Holds m
  shown : ∀ hostname progname, ∀ row ∈ st.row? hostname progname, ∀ field,
    (row.shown field).isSome → ∃ m ∈ ms, addressee m = (hostname, progname) ∧ m.typeInstance = field
  clock : ∀ hostname progname, ∀ row ∈ st.row? hostname progname,
    row.lastTotalCheckoutTime.isSome →
      ∃ m ∈ ms, addressee m = (hostname, progname) ∧ m.typeInstance = "checkouts"

theorem delivered_nil : Delivered [] {} := by
  have hnone : ∀ hostname progname, row? hostname progname {} = none := by
    rintro hostname (_ | progname) <;> rfl
  refine ⟨fun hostname progname => ?_, fun m hm => by (cases hm), ?_, ?_⟩
  · rw [hnone]
    simp
  · intro hostname progname row hrow
    rw [hnone] at hrow
    cases hrow
  · intro hostname progname row hrow
    rw [hnone] at hrow
    cases hrow

/-- What a message is about: a statistic of a row. -/
def subject (m : Message Number) : (String × Option String) × String := (addressee m, m.typeInstance)

section Step

variable {ms : List (Message Number)} {st : Stat} {m : Message Number}

/-- A row that was found shows only what was delivered for it. -/
theorem Delivered.shown_found (h : Delivered ms st) {hostname : String} {progname : Option String}
    {field : String} (hshown : ((st.found hostname progname).shown field).isSome) :
    ∃ m ∈ ms, addressee m = (hostname, progname) ∧ m.typeInstance = field := by
  unfold found at hshown
  cases hrow : st.row? hostname progname with
  | some row =>
      rw [hrow, Option.getD_some] at hshown
      exact h.shown hostname progname row hrow field hshown
  | none =>
      rw [hrow, Option.getD_none] at hshown
      unfold HostProg.shown at hshown
      split at hshown <;> cases hshown

theorem Delivered.clock_found (h : Delivered ms st) {hostname : String} {progname : Option String}
    (hclock : (st.found hostname progname).lastTotalCheckoutTime.isSome) :
    ∃ m ∈ ms, addressee m = (hostname, progname) ∧ m.typeInstance = "checkouts" := by
  unfold found at hclock
  cases hrow : st.row? hostname progname with
  | some row =>
      rw [hrow, Option.getD_some] at hclock
      exact h.clock hostname progname row hrow hclock
  | none =>
      rw [hrow, Option.getD_none] at hclock
      cases hclock

/-- What was held before is held after the message, by the same row or by another. -/
theorem Delivered.holds_update (h : Delivered ms st) (hvalues : m.values ≠ [])
    (hnew : ∀ m' ∈ ms, subject m' ≠ subject m) {row : HostProg} {st' : Stat}
    (hreceive : HostProg.receive m (st.found m.host (rowName m.pluginInstance)) = .ok () row)
    (hrow : ∀ hostname progname, st'.row? hostname progname =
      if (hostname, progname) = addressee m then some row else st.row? hostname progname)
    {m' : Message Number} (hm' : m' ∈ ms) (hfield : m'.typeInstance ∈ HostProg.statistics) :
    ∃ row ∈ st'.row? m'.host (rowName m'.pluginInstance), row.Holds m' := by
  obtain ⟨old, hold, hholds⟩ := h.holds m' hm' hfield
  by_cases hname : addressee m' = addressee m
  · -- another statistic of the same row
    have hne : m'.typeInstance ≠ m.typeInstance :=
      fun hfield' => hnew m' hm' (Prod.ext hname hfield')
    have hown : st'.row? m'.host (rowName m'.pluginInstance) = some row := by
      rw [hrow]
      exact if_pos hname
    have hfound : st.found m.host (rowName m.pluginInstance) = old := by
      obtain ⟨hhost, hprogram⟩ := Prod.mk.inj hname
      rw [found, ← hhost, ← hprogram, hold, Option.getD_some]
    rw [hfound] at hreceive
    exact ⟨row, hown, hholds.receive hvalues hne hreceive⟩
  · refine ⟨old, ?_, hholds⟩
    rw [hrow]
    exact (if_neg hname).trans hold

theorem Delivered.update (h : Delivered ms st) (hvalues : m.values ≠ [])
    (hnew : ∀ m' ∈ ms, subject m' ≠ subject m) :
    ∃ st', update m st = .ok () st' ∧ Delivered (ms ++ [m]) st' := by
  -- the row has seen no message about checkouts if this is one
  obtain ⟨row, hreceive⟩ : ∃ row,
      HostProg.receive m (st.found m.host (rowName m.pluginInstance)) = .ok () row := by
    refine HostProg.exists_receive hvalues fun hfield => ?_
    by_contra hclock
    obtain ⟨m', hm', haddressee, hfield'⟩ :=
      h.clock_found (Option.isSome_iff_ne_none.mpr hclock)
    exact hnew m' hm' (Prod.ext haddressee (hfield'.trans hfield.symm))
  obtain ⟨st', hupdate, hrow⟩ := update_ok hreceive
  have hlast : m ∈ ms ++ [m] := List.mem_append_right _ List.mem_cons_self
  refine ⟨st', hupdate, ?_, ?_, ?_, ?_⟩
  · intro hostname progname
    simp only [List.mem_append, List.mem_singleton, or_and_right, exists_or, exists_eq_left]
    rw [hrow]
    split
    · rename_i hname
      exact iff_of_true rfl (.inr hname.symm)
    · rename_i hname
      rw [h.rows, or_iff_left (Ne.symm hname)]
  · intro m' hm' hfield
    rcases List.mem_append.mp hm' with hm' | hm'
    · exact h.holds_update hvalues hnew hreceive hrow hm' hfield
    · obtain rfl := List.mem_singleton.mp hm'
      obtain ⟨value, rest, hvalues⟩ := List.exists_cons_of_ne_nil hvalues
      refine ⟨row, ?_, HostProg.holds_receive hvalues hfield hreceive⟩
      rw [hrow]
      exact if_pos rfl
  · intro hostname progname row' hrow' field hshown
    rw [hrow] at hrow'
    split at hrow'
    · rename_i hname
      obtain rfl := Option.some.inj hrow'
      by_cases hfield : field = m.typeInstance
      · exact ⟨m, hlast, hname.symm, hfield.symm⟩
      · -- any other statistic was there before
        rw [HostProg.shown_receive hvalues hreceive hfield] at hshown
        obtain ⟨m', hm', haddressee, hfield'⟩ := h.shown_found hshown
        exact ⟨m', List.mem_append_left _ hm', haddressee.trans hname.symm, hfield'⟩
    · obtain ⟨m', hm', hsubject⟩ := h.shown hostname progname row' hrow' field hshown
      exact ⟨m', List.mem_append_left _ hm', hsubject⟩
  · intro hostname progname row' hrow' hclock
    rw [hrow] at hrow'
    split at hrow'
    · rename_i hname
      obtain rfl := Option.some.inj hrow'
      by_cases hfield : m.typeInstance = "checkouts"
      · exact ⟨m, hlast, hname.symm, hfield⟩
      · rw [HostProg.clock_receive hvalues hreceive hfield] at hclock
        obtain ⟨m', hm', haddressee, hfield'⟩ := h.clock_found hclock
        exact ⟨m', List.mem_append_left _ hm', haddressee.trans hname.symm, hfield'⟩
    · obtain ⟨m', hm', hsubject⟩ := h.clock hostname progname row' hrow' hclock
      exact ⟨m', List.mem_append_left _ hm', hsubject⟩

end Step

/-- **Messages about different subjects** are all received, in any order. -/
theorem delivered_forM {ms : List (Message Number)} (hvalues : ∀ m ∈ ms, m.values ≠ [])
    (hnodup : (ms.map subject).Nodup) :
    ∃ st, ms.forM Stat.update {} = .ok () st ∧ Delivered ms st := by
  have hrest : ∀ {rest before : List (Message Number)} {st : Stat}, before ++ rest = ms →
      Delivered before st → ∃ st', rest.forM Stat.update st = .ok () st' ∧ Delivered ms st' := by
    intro rest
    induction rest with
    | nil =>
        intro before st hsplit h
        rw [List.append_nil] at hsplit
        exact ⟨st, rfl, hsplit ▸ h⟩
    | cons m rest ih =>
        intro before st hsplit h
        subst hsplit
        have hnew : ∀ m' ∈ before, subject m' ≠ subject m := by
          intro m' hm'
          rw [List.map_append] at hnodup
          exact (List.nodup_append.mp hnodup).2.2 _ (List.mem_map_of_mem hm') _
            (List.mem_map_of_mem List.mem_cons_self)
        obtain ⟨mid, hupdate, hmid⟩ :=
          h.update (hvalues m (List.mem_append_right _ List.mem_cons_self)) hnew
        obtain ⟨st', hforM, hst'⟩ := ih (by rw [List.append_assoc]; rfl) hmid
        refine ⟨st', ?_, hst'⟩
        show EStateM.bind (Stat.update m) (fun _ => rest.forM Stat.update) st = _
        rw [EStateM.bind, hupdate]
        exact hforM
  exact hrest (List.nil_append ms) delivered_nil

end Stat

end SqlalchemyCollectd
