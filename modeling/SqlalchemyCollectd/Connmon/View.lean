import SqlalchemyCollectd.Connmon.Delivery
import SqlalchemyCollectd.Connmon.Relay
import SqlalchemyCollectd.Server.Emission

/-!
# SqlalchemyCollectd.Connmon.View

From a summary to the display of connmon.

Every external value of a summary can be packed by the connmon plugin, arrives at
the monitor and is shown in the row of its label, whatever the order of delivery
(`view_agrees`). The two groupings of a summary meet again in the monitor: what
`update_host_stats` adds up over the programs is what the rows of the hosts say
(`HostsAgree`).
-/

namespace SqlalchemyCollectd

open Receiver TimeBucket

/-! ### Messages of the client -/

/-- One number for each field of a type, as they are in a record of the receiver. -/
def Full : InternalType → List Number → Prop
  | .pool, xs => ∃ ys : List Float, ys.length = 5 ∧ xs = ys.map .float
  | .totals, xs => ∃ ns : List ℤ, ns.length = 4 ∧ xs = ns.map .int
  | .process, xs => xs = [1]

/-- A record that can be reported. -/
structure Proper (τ : InternalType) (m : Message Number) : Prop where
  host : Encodable m.host
  program : Encodable m.pluginInstance
  plugin : Encodable m.plugin
  named : m.pluginInstance ≠ "host"
  full : Full τ m.values

/-- A message about a pool or about totals, as the client packs it. -/
def FromClient (m : Message Number) : Prop :=
  ∃ τ, τ ≠ InternalType.process ∧ m.type = τ.name ∧ Proper τ m

/-- **Every record of the receiver can be reported**, if the messages can. -/
theorem Receiver.Reaches.proper {ops : List (Op Number)} {s : Receiver Number}
    (h : Reaches ops s) (hclient : ∀ m, .setStats m ∈ ops → FromClient m) (σ : InternalType) :
    (s.buckets σ).Forall fun _ r => Proper σ r.value := by
  refine h.forall (P := fun σ _ r => Proper σ r.value) ?_ ?_ σ
  · intro m τ hm hτ
    obtain ⟨τ', -, htype, hproper⟩ := hclient m hm
    rw [htype, InternalType.ofName?_name] at hτ
    exact Option.some.inj hτ ▸ hproper
  · intro m hm
    obtain ⟨τ, -, -, hproper⟩ := hclient m hm
    exact { hproper with full := rfl }

theorem Full.length {τ : InternalType} {xs : List Number} (h : Full τ xs) :
    xs.length = τ.toType.names.length := by
  cases τ with
  | pool =>
      obtain ⟨ys, hlength, rfl⟩ := h
      rw [List.length_map, hlength]
      rfl
  | totals =>
      obtain ⟨ns, hlength, rfl⟩ := h
      rw [List.length_map, hlength]
      rfl
  | process => rw [h]; rfl

theorem Full.isSome {τ : InternalType} {xs : List Number} (h : Full τ xs) {i : ℕ} {field : String}
    (hname : τ.toType.names[i]? = some field) : (xs[i]?).isSome := by
  have hlt := (List.getElem?_eq_some_iff.mp hname).1
  rw [List.getElem?_eq_getElem (h.length ▸ hlt), Option.isSome_some]

/-! ### Numbers on the way -/

/-- The same number, or one that Python finds equal. -/
def Number.Same (y x : Number) : Prop := y = x ∨ y.pyEq x

/-- What fits into a field arrives unharmed. -/
theorem same_carried {t : ValueType} {x : Number} (h : FitsField t x) : (carried t x).Same x := by
  cases t with
  | counter => cases x <;> cases h
  | absolute => cases x <;> cases h
  | derive => exact Or.inl rfl
  | gauge =>
      cases x with
      | int n => exact Or.inr (Number.pyEq_nearest h)
      | float x => exact Or.inl rfl

theorem Number.Counts.carried {x : Number} {n : ℕ} (h : x.Counts n) (t : ValueType) :
    (carried t x).Counts n := by
  cases t with
  | gauge => exact Or.inr (congrArg Number.float h.toFloat)
  | counter => exact h
  | absolute => exact h
  | derive => exact h

section Row

variable {τ : InternalType} {g : Grouping} {b : TimeBucket ProcessKey (Message Number)}
  {c : String ×ₗ String}

theorem proper_of_mem_rowRecords (hproper : b.Forall fun _ r => Proper τ r.value)
    {m : Message Number} (hm : m ∈ b.rowRecords g c) : Proper τ m := by
  obtain ⟨k, -, hitem⟩ := List.mem_filterMap.mp hm
  obtain ⟨r, hr, rfl⟩ := Option.map_eq_some_iff.mp hitem
  exact hproper k r hr

theorem length_rowRecords_le (b : TimeBucket ProcessKey (Message Number)) (g : Grouping)
    (c : String ×ₗ String) : (b.rowRecords g c).length ≤ b.bucket.items.length := by
  calc (b.rowRecords g c).length
    _ ≤ (b.members g c).length := List.length_filterMap_le ..
    _ ≤ b.bucket.keys.length := length_members_le g b c
    _ = b.bucket.items.length := List.length_map ..

/-- **The values of a summary can be packed**: totals if their sum is small enough, and
process counts if there are not too many processes. -/
theorem fitsField_of_emits (hproper : b.Forall fun _ r => Proper τ r.value) {t : ℚ} {i : ℕ}
    {field : String} {v : Values Number} (h : Emits t τ g b c i field v)
    (hsum : τ = .totals → ∀ n, v.values = [.int n] → -2 ^ 63 ≤ n ∧ n < 2 ^ 63)
    (hcount : τ = .process → b.bucket.items.length < 2 ^ 53) :
    ∃ x, v.values = [x] ∧ FitsField τ.kind x := by
  have hrec : ∀ m ∈ b.rowRecords g c, Full τ m.values ∧ (m.values[i]?).isSome := fun m hm =>
    ⟨(proper_of_mem_rowRecords hproper hm).full, h.complete m hm⟩
  refine ⟨_, h.values, ?_⟩
  cases τ with
  | pool =>
      have hfloat : ∀ m ∈ b.rowRecords g c, ∃ y : Float, m.values[i]? = some (.float y) := by
        intro m hm
        obtain ⟨⟨ys, -, hys⟩, hsome⟩ := hrec m hm
        rw [hys, List.getElem?_map] at hsome ⊢
        cases hy : ys[i]? with
        | none => rw [hy] at hsome; cases hsome
        | some y => exact ⟨y, rfl⟩
      obtain ⟨ys, hlength, hys⟩ := exists_map_of_filterMap hfloat
      obtain ⟨first, rest, hrecs⟩ := exists_rowRecords h.row
      obtain ⟨y, ys, rfl⟩ : ∃ y ys', ys = y :: ys' :=
        List.exists_cons_of_length_pos (by rw [hlength, hrecs]; exact Nat.succ_pos _)
      obtain ⟨z, hz⟩ := exists_float_pySum y ys
      rw [hys, hz]
      trivial
  | totals =>
      have hint : ∀ m ∈ b.rowRecords g c, ∃ n : ℤ, m.values[i]? = some (.int n) := by
        intro m hm
        obtain ⟨⟨ns, -, hns⟩, hsome⟩ := hrec m hm
        rw [hns, List.getElem?_map] at hsome ⊢
        cases hn : ns[i]? with
        | none => rw [hn] at hsome; cases hsome
        | some n => exact ⟨n, rfl⟩
      obtain ⟨ns, -, hns⟩ := exists_map_of_filterMap hint
      have hvalues := h.values
      rw [hns, pySum_int] at hvalues ⊢
      exact hsum rfl ns.sum hvalues
  | process =>
      have hone : ∀ m ∈ b.rowRecords g c, ∃ _ : Unit, m.values[i]? = some (.int 1) := by
        intro m hm
        obtain ⟨hfull, hsome⟩ := hrec m hm
        obtain ⟨x, hx⟩ := Option.isSome_iff_exists.mp hsome
        have hmem : x ∈ [(1 : Number)] := hfull ▸ List.mem_of_getElem? hx
        exact ⟨(), hx.trans (congrArg some (List.mem_singleton.mp hmem))⟩
      obtain ⟨ones, hlength, hones⟩ := exists_map_of_filterMap hone
      have hints : ones.map (fun _ => Number.int 1) = (List.replicate ones.length 1).map .int := by
        rw [List.map_replicate, List.map_const']
      have hsmall := (length_rowRecords_le b g c).trans_lt (hcount rfl)
      rw [hones, hints, pySum_int, List.sum_replicate, hlength]
      show (_ : ℤ).natAbs < 2 ^ 53
      rw [nsmul_eq_mul, mul_one, Int.natAbs_natCast]
      exact hsmall

end Row

/-! ### Arrival -/

/-- The external values of a summary that does not raise, of records that can be
reported, within the bounds of the wire. -/
structure Reportable (t : ℚ) (s : Receiver Number) : Prop where
  filed : ∀ σ, Filed σ (s.buckets σ)
  proper : ∀ σ, (s.swept t σ).Forall fun _ r => Proper σ r.value
  raised : (summarize t s).1.raised = none
  time : -2 ^ 63 ≤ pyInt t ∧ pyInt t < 2 ^ 63
  sums : ∀ v ∈ (summarize t s).1.values, v.type = some "derive" → ∀ n, v.values = [.int n] →
    -2 ^ 63 ≤ n ∧ n < 2 ^ 63
  processes : (s.swept t .process).bucket.items.length < 2 ^ 53

/-- A value of a summary and the message in which it arrives. -/
structure Arrives (t : ℚ) (s : Receiver Number) (τ : InternalType) (g : Grouping)
    (c : String ×ₗ String) (i : ℕ) (field : String) (v : Values Number) (m : Message Number) :
    Prop where
  emits : Emits t τ g (s.swept t τ) c i field v
  addressee : Stat.addressee m = ((ofLex c).1, Stat.rowName (ofLex c).2)
  field : m.typeInstance = field
  values : ∃ x, v.values = [x] ∧ FitsField τ.kind x ∧ m.values = [carried τ.kind x]

section Arrival

variable {t : ℚ} {s : Receiver Number}

theorem Reportable.exists_arrives (h : Reportable t s) {v : Values Number}
    (hv : v ∈ (summarize t s).1.values) {interval : ℤ} (hpos : 0 < interval)
    (hsmall : interval < 2 ^ 63) :
    ∃ m, relay { v with interval } = some (.ok (some m)) ∧
      ∃ τ g c i field, Arrives t s τ g c i field v m := by
  obtain ⟨τ, g, hpass⟩ := (mem_summarize h.filed h.raised).mp hv
  obtain ⟨c, i, field, hemits, -⟩ := (mem_passValues (filed_swept h.filed t τ)).mp hpass
  obtain ⟨x, hx, hfits⟩ := fitsField_of_emits (h.proper τ) hemits
    (fun hτ => h.sums v hv (by rw [hemits.type, hτ]; rfl)) (fun hτ => hτ ▸ h.processes)
  obtain ⟨hlabel, hfield⟩ := Prod.mk.inj hemits.subject
  obtain ⟨hhost, hprogram⟩ := Prod.mk.inj hlabel
  have hlabelled : Labelled τ (ofLex c).1 (ofLex c).2 field t x { v with interval } :=
    ⟨hemits.type, hhost, hprogram, hfield, hemits.time, hx⟩
  -- the row has a record, whose strings could be packed before
  obtain ⟨first, rest, hrecs⟩ := exists_rowRecords hemits.row
  have hfirst : first ∈ (s.swept t τ).rowRecords g c := hrecs ▸ List.mem_cons_self
  have hproper := proper_of_mem_rowRecords (h.proper τ) hfirst
  have hrow := row_of_mem_rowRecords (filed_swept h.filed t τ) hfirst
  have hencHost : Encodable (ofLex c).1 := by
    rw [← hrow]
    exact hproper.host
  have hencProgram : Encodable (ofLex c).2 := by
    rw [← hrow]
    cases g with
    | byProgname => exact hproper.program
    | byHostname => exact (by decide +kernel : Encodable "host")
  have hencPlugin : Encodable (v.plugin.getD "") := by
    rcases hemits.plugin with hnone | ⟨m, hm, hplug⟩
    · rw [hnone]
      exact (by decide +kernel : Encodable "")
    · rw [hplug]
      exact (proper_of_mem_rowRecords (h.proper τ) hm).plugin
  have hinterval : -2 ^ 63 ≤ pyInt (interval : ℚ) ∧ pyInt (interval : ℚ) < 2 ^ 63 := by
    rw [pyInt_intCast]
    omega
  obtain ⟨m, hrelay, hcarries⟩ := relay_ok hlabelled hencHost hencProgram
    (τ.encodable_names field hemits.mem_names) hencPlugin h.time hinterval hfits
  refine ⟨m, hrelay, τ, g, c, i, field, hemits, ?_, hcarries.field, x, hx, hfits, hcarries.values⟩
  rw [Stat.addressee, hcarries.host, hcarries.program]

/-- Rows of the monitor tell programs from hosts. -/
theorem rowName_injective : Function.Injective Stat.rowName := by
  intro p q h
  unfold Stat.rowName at h
  split at h <;> split at h <;> simp_all

theorem Arrives.subject_ne {τ τ' : InternalType} {g g' : Grouping} {c c' : String ×ₗ String}
    {i i' : ℕ} {field field' : String} {v w : Values Number} {m m' : Message Number}
    (h : Arrives t s τ g c i field v m) (h' : Arrives t s τ' g' c' i' field' w m')
    (hne : subjectOf v ≠ subjectOf w) : Stat.subject m ≠ Stat.subject m' := by
  intro heq
  obtain ⟨haddressee, hfield⟩ := Prod.mk.inj heq
  rw [h.addressee, h'.addressee] at haddressee
  obtain ⟨hhost, hprogram⟩ := Prod.mk.inj haddressee
  have hc : c = c' := ofLex_inj.mp (Prod.ext hhost (rowName_injective hprogram))
  rw [h.field, h'.field] at hfield
  rw [h.emits.subject, h'.emits.subject, hc, hfield] at hne
  exact hne rfl

/-- The rows of programs and of hosts are told apart by their labels. -/
theorem Reportable.host_iff (h : Reportable t s) {τ : InternalType} {g : Grouping}
    {c : String ×ₗ String} (hc : c ∈ (s.swept t τ).rows g) :
    (ofLex c).2 = "host" ↔ g = .byHostname := by
  obtain ⟨k, hk, rfl⟩ := mem_rows.mp hc
  cases g with
  | byHostname => exact iff_of_true rfl rfl
  | byProgname =>
      obtain ⟨r, hr⟩ := Option.isSome_iff_exists.mp hk
      refine iff_of_false (fun hhost => (h.proper τ k r hr).named ?_) (by simp)
      rw [← hhost, ← (filed_swept h.filed t τ k r hr).2]
      rfl

/-- No two values of the summary are about the same thing. -/
theorem Reportable.pairwise (h : Reportable t s) :
    (summarize t s).1.values.Pairwise fun v w => subjectOf v ≠ subjectOf w := by
  refine (pairwise_summarize h.filed h.raised).mpr fun τ v hv w hw heq => ?_
  obtain ⟨c, i, field, hv, -⟩ := (mem_passValues (filed_swept h.filed t τ)).mp hv
  obtain ⟨c', i', field', hw, -⟩ := (mem_passValues (filed_swept h.filed t τ)).mp hw
  obtain ⟨-, rfl, -⟩ := hv.eq_of_subject hw heq
  exact absurd ((h.host_iff hv.row).mp ((h.host_iff hw.row).mpr rfl)) (by decide)

end Arrival

/-! ### Agreement -/

/-- The display agrees with a summary: each value is shown in the row of its label, and
there are no other rows and no other statistics. -/
structure Agrees (emitted : List (Values Number)) (st : Stat) : Prop where
  shows : ∀ v ∈ emitted, ∃ host program field x row, labelOf v = (some host, some program) ∧
    v.typeInstance = some field ∧ v.values = [x] ∧
    st.row? host (Stat.rowName program) = some row ∧
    (field ∈ HostProg.statistics → ∃ y, row.shown field = some y ∧ y.Same x)
  rows : ∀ host progname row, st.row? host progname = some row →
    ∃ v ∈ emitted, ∃ program, labelOf v = (some host, some program) ∧
      Stat.rowName program = progname
  statistics : ∀ host progname row, st.row? host progname = some row →
    ∀ field, (row.shown field).isSome → ∃ v ∈ emitted, ∃ program,
      labelOf v = (some host, some program) ∧ Stat.rowName program = progname ∧
        v.typeInstance = some field

/-- The rows of a grouping, with their labels. -/
def Stat.rowsBy (st : Stat) : Grouping → List ((String ×ₗ String) × HostProg)
  | .byProgname => st.hostprogs.items.map fun e => (toLex e.1, e.2)
  | .byHostname => st.hosts.items.map fun e => (toLex (e.1, "host"), e.2)

/-- The sum over the rows of a grouping, as `update_host_stats` makes it over the
programs. -/
def Stat.sumBy (g : Grouping) (field : String) (st : Stat) : Number :=
  pySum ((st.rowsBy g).filterMap fun e => e.2.shown field)

theorem Stat.sumRows_eq (field : String) (st : Stat) :
    st.sumRows (fun hostprog => hostprog.shown field) = st.sumBy .byProgname field := by
  rw [Stat.sumRows, Stat.sumBy, Stat.rowsBy, List.filterMap_map, List.filterMap_map]
  rfl

/-- All values of a bucket are counts, and small ones even if they are added up. -/
def SmallCounts (b : TimeBucket ProcessKey (Message Number)) : Prop :=
  ∃ counts : ℕ → ProcessKey → ℕ,
    (∀ k r, b.bucket.get? k = some r → ∀ i x, r.value.values[i]? = some x →
        Number.Counts x (counts i k)) ∧
      ∀ i, (b.bucket.keys.map (counts i)).sum < 2 ^ 53

section Display

variable {t : ℚ} {s : Receiver Number} {ms : List (Message Number)} {st : Stat}

/-- Messages that carry the values of a summary, and nothing else. -/
structure Relayed (t : ℚ) (s : Receiver Number) (ms : List (Message Number)) : Prop where
  sent : ∀ v ∈ (summarize t s).1.values, ∃ m ∈ ms, ∃ τ g c i field, Arrives t s τ g c i field v m
  received : ∀ m ∈ ms, ∃ v ∈ (summarize t s).1.values, ∃ τ g c i field,
    Arrives t s τ g c i field v m

/-- A value that was sent is shown as it has arrived. -/
theorem Relayed.exists_shown (h : Relayed t s ms) (hst : Stat.Delivered ms st) {v : Values Number}
    (hv : v ∈ (summarize t s).1.values) :
    ∃ τ g c i field x row, Emits t τ g (s.swept t τ) c i field v ∧ v.values = [x] ∧
      FitsField τ.kind x ∧ st.row? (ofLex c).1 (Stat.rowName (ofLex c).2) = some row ∧
      (field ∈ HostProg.statistics → row.shown field = some (carried τ.kind x)) := by
  obtain ⟨m, hm, τ, g, c, i, field, harrives⟩ := h.sent v hv
  obtain ⟨x, hx, hfits, hvalues⟩ := harrives.values
  obtain ⟨hhost, hprogram⟩ := Prod.mk.inj harrives.addressee
  obtain ⟨row, hrow⟩ := Option.isSome_iff_exists.mp ((hst.rows _ _).mpr ⟨m, hm, harrives.addressee⟩)
  refine ⟨τ, g, c, i, field, x, row, harrives.emits, hx, hfits, hrow, fun hfield => ?_⟩
  rw [← harrives.field] at hfield ⊢
  obtain ⟨row', hrow', hholds⟩ := hst.holds m hm hfield
  rw [hhost, hprogram] at hrow'
  obtain rfl : row = row' := Option.some.inj (hrow.symm.trans hrow')
  rw [hholds.shown, hvalues, List.head?_cons]

theorem Relayed.agrees (h : Relayed t s ms) (hst : Stat.Delivered ms st) :
    Agrees (summarize t s).1.values st := by
  have hback : ∀ {host progname} {m : Message Number}, m ∈ ms →
      Stat.addressee m = (host, progname) → ∃ v ∈ (summarize t s).1.values, ∃ program,
        labelOf v = (some host, some program) ∧ Stat.rowName program = progname ∧
          v.typeInstance = some m.typeInstance := by
    intro host progname m hm haddressee
    obtain ⟨v, hv, τ, g, c, i, field, harrives⟩ := h.received m hm
    rw [harrives.addressee] at haddressee
    obtain ⟨rfl, rfl⟩ := Prod.mk.inj haddressee
    obtain ⟨hlabel, hfield⟩ := Prod.mk.inj harrives.emits.subject
    exact ⟨v, hv, (ofLex c).2, hlabel, rfl, harrives.field ▸ hfield⟩
  refine ⟨fun v hv => ?_, fun host progname row hrow => ?_, ?_⟩
  · obtain ⟨τ, g, c, i, field, x, row, hemits, hx, hfits, hrow, hshown⟩ := h.exists_shown hst hv
    obtain ⟨hlabel, hfield⟩ := Prod.mk.inj hemits.subject
    exact ⟨(ofLex c).1, (ofLex c).2, field, x, row, hlabel, hfield, hx, hrow,
      fun hmem => ⟨_, hshown hmem, same_carried hfits⟩⟩
  · obtain ⟨m, hm, haddressee⟩ := (hst.rows host progname).mp (Option.isSome_iff_exists.mpr ⟨row, hrow⟩)
    obtain ⟨v, hv, program, hlabel, hname, -⟩ := hback hm haddressee
    exact ⟨v, hv, program, hlabel, hname⟩
  · intro host progname row hrow field hshown
    obtain ⟨m, hm, haddressee, rfl⟩ := hst.shown host progname row hrow field hshown
    exact hback hm haddressee

/-! ### Two groupings, one total -/

theorem nodup_rowsBy (st : Stat) (g : Grouping) : ((st.rowsBy g).map Prod.fst).Nodup := by
  cases g with
  | byProgname =>
      show ((st.hostprogs.items.map fun e => (toLex e.1, e.2)).map Prod.fst).Nodup
      rw [List.map_map]
      show (st.hostprogs.items.map (toLex ∘ Prod.fst)).Nodup
      rw [← List.map_map]
      exact st.hostprogs.keys_nodup.map toLex.injective
  | byHostname =>
      show ((st.hosts.items.map fun e => (toLex (e.1, "host"), e.2)).map Prod.fst).Nodup
      rw [List.map_map]
      show (st.hosts.items.map ((fun h => toLex (h, "host")) ∘ Prod.fst)).Nodup
      rw [← List.map_map]
      refine st.hosts.keys_nodup.map fun h h' heq => ?_
      exact (Prod.mk.inj (toLex.injective heq)).1

/-- The rows of a grouping are those with its labels. -/
theorem mem_rowsBy (hst : Stat.Delivered ms st) {g : Grouping} {c : String ×ₗ String}
    {row : HostProg} :
    (c, row) ∈ st.rowsBy g ↔ st.row? (ofLex c).1 (Stat.rowName (ofLex c).2) = some row ∧
      ((ofLex c).2 = "host" ↔ g = .byHostname) := by
  obtain ⟨host, program⟩ := c
  cases g with
  | byProgname =>
      have hkey : ((host, program), row) ∈ st.hostprogs.items → program ≠ "host" := by
        rintro hmem rfl
        have hsome : (st.row? host (some "host")).isSome := by
          rw [Stat.row?, OrderedDict.mem_items_iff.mp hmem, Option.isSome_some]
        obtain ⟨m, -, haddressee⟩ := (hst.rows host (some "host")).mp hsome
        have hname := (Prod.mk.inj haddressee).2
        unfold Stat.rowName at hname
        split at hname
        · cases hname
        · exact absurd (Option.some.inj hname) ‹_›
      constructor
      · intro hmem
        obtain ⟨e, he, heq⟩ := List.mem_map.mp hmem
        obtain rfl : e = ((host, program), row) := heq
        refine ⟨?_, iff_of_false (hkey he) (by simp)⟩
        show st.row? host (Stat.rowName program) = some row
        rw [Stat.rowName, if_neg (hkey he)]
        exact OrderedDict.mem_items_iff.mp he
      · rintro ⟨hrow, hhost⟩
        have hne : program ≠ "host" := fun h => absurd (hhost.mp h) (by simp)
        replace hrow : st.row? host (Stat.rowName program) = some row := hrow
        rw [Stat.rowName, if_neg hne] at hrow
        exact List.mem_map.mpr ⟨((host, program), row), OrderedDict.mem_items_iff.mpr hrow, rfl⟩
  | byHostname =>
      constructor
      · intro hmem
        obtain ⟨⟨host', row'⟩, he, heq⟩ := List.mem_map.mp hmem
        obtain ⟨hc, rfl⟩ := Prod.mk.inj heq
        obtain ⟨rfl, rfl⟩ := Prod.mk.inj (toLex.injective hc)
        exact ⟨OrderedDict.mem_items_iff.mp he, iff_of_true rfl rfl⟩
      · rintro ⟨hrow, hhost⟩
        obtain rfl : program = "host" := hhost.mpr rfl
        exact List.mem_map.mpr ⟨(host, row), OrderedDict.mem_items_iff.mpr hrow, rfl⟩

/-- A row of a bucket is a row of the display. -/
theorem Relayed.exists_row (hreport : Reportable t s) (h : Relayed t s ms)
    (hst : Stat.Delivered ms st) {τ : InternalType} {g : Grouping} {c : String ×ₗ String}
    (hc : c ∈ (s.swept t τ).rows g) {i : ℕ} {field : String}
    (hname : τ.toType.names[i]? = some field) :
    ∃ v row x, Emits t τ g (s.swept t τ) c i field v ∧ (c, row) ∈ st.rowsBy g ∧ v.values = [x] ∧
      (field ∈ HostProg.statistics → row.shown field = some (carried τ.kind x)) := by
  have hfiled := filed_swept hreport.filed t τ
  obtain ⟨v, hv, hemits⟩ := exists_emits (t := t) hfiled hc hname fun m hm =>
    (proper_of_mem_rowRecords (hreport.proper τ) hm).full.isSome hname
  have hmem : v ∈ (summarize t s).1.values := (mem_summarize hreport.filed hreport.raised).mpr
    ⟨τ, g, (mem_passValues hfiled).mpr ⟨c, i, field, hemits, hv⟩⟩
  obtain ⟨τ', g', c', i', field', x, row, hemits', hx, -, hrow, hshown⟩ := h.exists_shown hst hmem
  obtain ⟨rfl, rfl, rfl⟩ := hemits.eq_of_subject hemits' rfl
  exact ⟨v, row, x, hemits, (mem_rowsBy hst).mpr ⟨hrow, hreport.host_iff hc⟩, hx, hshown⟩

/-- Every grouping of the display has the hosts that have records. -/
theorem Relayed.host_mem_iff (hreport : Reportable t s) (h : Relayed t s ms)
    (hst : Stat.Delivered ms st) (g : Grouping) (host : String) :
    (∃ e ∈ st.rowsBy g, (ofLex e.1).1 = host) ↔
      ∃ τ k, ((s.swept t τ).bucket.get? k).isSome ∧ k.hostname = host := by
  constructor
  · rintro ⟨⟨c, row⟩, he, rfl⟩
    obtain ⟨v, hv, program, hlabel, -⟩ :=
      (h.agrees hst).rows _ _ row ((mem_rowsBy hst).mp he).1
    obtain ⟨τ, g', hpass⟩ := (mem_summarize hreport.filed hreport.raised).mp hv
    obtain ⟨c', i, field, hemits, -⟩ := (mem_passValues (filed_swept hreport.filed t τ)).mp hpass
    obtain ⟨k, hk, rfl⟩ := mem_rows.mp hemits.row
    have hhost := (Prod.mk.inj ((Prod.mk.inj hemits.subject).1.symm.trans hlabel)).1
    exact ⟨τ, k, hk, Option.some.inj hhost⟩
  · rintro ⟨τ, k, hk, rfl⟩
    obtain ⟨field, hname⟩ : ∃ field, τ.toType.names[0]? = some field := by
      cases τ <;> exact ⟨_, rfl⟩
    obtain ⟨v, row, x, -, hmem, -⟩ := h.exists_row hreport hst (mem_rows.mpr ⟨k, hk, rfl⟩) hname
    exact ⟨_, hmem, rfl⟩

/-- `update_host_stats` counts the hosts that have a row of their own. -/
theorem Relayed.hostCount_eq (hreport : Reportable t s) (h : Relayed t s ms)
    (hst : Stat.Delivered ms st) : st.updateHostStats.hostCount = st.hosts.items.length := by
  have hprograms : ∀ host, host ∈ st.hostprogs.keys.map Prod.fst ↔
      ∃ e ∈ st.rowsBy .byProgname, (ofLex e.1).1 = host := by
    intro host
    simp [Stat.rowsBy, OrderedDict.keys, OrderedDict.items]
  have hhosts : ∀ host, host ∈ st.hosts.keys ↔
      ∃ e ∈ st.rowsBy .byHostname, (ofLex e.1).1 = host := by
    intro host
    simp [Stat.rowsBy, OrderedDict.keys, OrderedDict.items]
  have hset : (st.hostprogs.keys.map Prod.fst).toFinset = st.hosts.keys.toFinset := by
    ext host
    rw [List.mem_toFinset, List.mem_toFinset, hprograms, hhosts, h.host_mem_iff hreport hst,
      h.host_mem_iff hreport hst]
  show (st.hostprogs.keys.map Prod.fst).toFinset.card = _
  rw [hset, List.toFinset_card_of_nodup st.hosts.keys_nodup]
  exact List.length_map ..

section Total

variable {τ : InternalType} {i : ℕ} {field : String} {counts : ProcessKey → ℕ}

/-- The value of a row counts what its processes count. -/
theorem counts_row {b : TimeBucket ProcessKey (Message Number)}
    (hproper : b.Forall fun _ r => Proper τ r.value) (hname : τ.toType.names[i]? = some field)
    (hcounts : ∀ k r, b.bucket.get? k = some r → ∀ x, r.value.values[i]? = some x →
      x.Counts (counts k)) (g : Grouping) (c : String ×ₗ String)
    (hsmall : ((b.members g c).map counts).sum < 2 ^ 53) :
    (pySum ((b.rowRecords g c).filterMap fun m : Message Number => m.values[i]?)).Counts
      ((b.members g c).map counts).sum := by
  rw [rowRecords, List.filterMap_filterMap]
  refine counts_pySum (fun k hk => ?_) hsmall
  obtain ⟨r, hr⟩ := Option.isSome_iff_exists.mp (mem_members.mp hk).1
  obtain ⟨x, hx⟩ := Option.isSome_iff_exists.mp ((hproper k r hr).full.isSome hname)
  have hitem : ((b.getItem? k).bind fun m : Message Number => m.values[i]?) = some x := by
    rw [getItem?, hr]
    exact hx
  rw [hitem]
  exact hcounts k r hr x hx

/-- What the display shows was emitted for the row. -/
theorem Relayed.row_of_shown (hreport : Reportable t s) (h : Relayed t s ms)
    (hst : Stat.Delivered ms st) (hname : τ.toType.names[i]? = some field) {g : Grouping}
    {c : String ×ₗ String} {row : HostProg} (he : (c, row) ∈ st.rowsBy g)
    (hshown : (row.shown field).isSome) : c ∈ (s.swept t τ).rows g := by
  obtain ⟨hrow, hhost⟩ := (mem_rowsBy hst).mp he
  obtain ⟨v, hv, program, hlabel, hprogram, hinstance⟩ :=
    (h.agrees hst).statistics _ _ row hrow field hshown
  obtain ⟨τ', g', hpass⟩ := (mem_summarize hreport.filed hreport.raised).mp hv
  obtain ⟨c', i', field', hemits, -⟩ :=
    (mem_passValues (filed_swept hreport.filed t τ')).mp hpass
  obtain ⟨hlabel', hinstance'⟩ := Prod.mk.inj hemits.subject
  obtain rfl : field' = field := by simpa [hinstance'] using hinstance
  obtain rfl : c' = c := by
    obtain ⟨hhost', hprogram'⟩ := Prod.mk.inj (hlabel'.symm.trans hlabel)
    refine ofLex_inj.mp (Prod.ext (Option.some.inj hhost') ?_)
    exact (Option.some.inj hprogram').trans (rowName_injective hprogram)
  obtain rfl : τ' = τ := by
    by_contra hne
    exact disjoint_names hne field' hemits.mem_names (List.mem_of_getElem? hname)
  have hgroup : g' = .byHostname ↔ g = .byHostname :=
    (hreport.host_iff hemits.row).symm.trans hhost
  obtain rfl : g' = g := by
    cases g <;> cases g' <;> simp_all
  exact hemits.row

/-- **Both groupings count the same**: the values of a field that the display shows in
the rows of a grouping add up to the count over all processes. -/
theorem Relayed.counts_sumBy (hreport : Reportable t s) (h : Relayed t s ms)
    (hst : Stat.Delivered ms st) (hname : τ.toType.names[i]? = some field)
    (hfield : field ∈ HostProg.statistics)
    (hcounts : ∀ k r, (s.swept t τ).bucket.get? k = some r → ∀ x, r.value.values[i]? = some x →
      x.Counts (counts k))
    (hsmall : ((s.swept t τ).bucket.keys.map counts).sum < 2 ^ 53) (g : Grouping) :
    (st.sumBy g field).Counts ((s.swept t τ).bucket.keys.map counts).sum := by
  have hfiled := filed_swept hreport.filed t τ
  have hperm : ((s.swept t τ).sortedKeys.map counts).sum =
      ((s.swept t τ).bucket.keys.map counts).sum :=
    ((List.perm_insertionSort ..).map counts).sum_eq
  have htotal : ((st.rowsBy g).map fun e =>
      (((s.swept t τ).members g e.1).map counts).sum).sum =
        ((s.swept t τ).bucket.keys.map counts).sum := by
    rw [← hperm, ← List.sum_map_sum_filter counts (nodup_rowsBy st g), List.map_map]
    · rfl
    · intro k hk
      obtain ⟨v, row, x, -, hmem, -⟩ :=
        h.exists_row hreport hst (mem_rows.mpr ⟨k, mem_sortedKeys.mp hk, rfl⟩) hname
      exact List.mem_map_of_mem (f := Prod.fst) hmem
  rw [Stat.sumBy, ← htotal]
  refine counts_pySum (fun e he => ?_) (htotal ▸ hsmall)
  obtain ⟨c, row⟩ := e
  by_cases hc : c ∈ (s.swept t τ).rows g
  · obtain ⟨v, row', x, hemits, hmem, hx, hshown⟩ := h.exists_row hreport hst hc hname
    obtain rfl : row = row' :=
      Option.some.inj (((mem_rowsBy hst).mp he).1.symm.trans ((mem_rowsBy hst).mp hmem).1)
    dsimp only
    rw [hshown hfield]
    obtain rfl : x = _ := List.singleton_inj.mp (hx.symm.trans hemits.values)
    have hle : (((s.swept t τ).members g c).map counts).sum ≤
        ((s.swept t τ).sortedKeys.map counts).sum :=
      (List.filter_sublist.map counts).sum_le_sum fun _ _ => Nat.zero_le _
    exact (counts_row (hreport.proper τ) hname hcounts g c (by omega)).carried _
  · have hempty : (s.swept t τ).members g c = [] := by
      refine List.eq_nil_iff_forall_not_mem.mpr fun k hk => hc ?_
      exact mem_rows.mpr ⟨k, mem_members.mp hk⟩
    have hnone : row.shown field = none := by
      by_contra hshown
      exact hc (h.row_of_shown hreport hst hname he (Option.isSome_iff_ne_none.mpr hshown))
    dsimp only
    rw [hnone, hempty]
    rfl

end Total

/-- What `update_host_stats` adds up over the programs, and the sum over the hosts. -/
theorem Relayed.sums_agree (hreport : Reportable t s) (h : Relayed t s ms)
    (hst : Stat.Delivered ms st) {τ : InternalType} {i : ℕ} {field : String}
    (hname : τ.toType.names[i]? = some field) (hfield : field ∈ HostProg.statistics)
    (hsmall : SmallCounts (s.swept t τ)) :
    (st.sumBy .byProgname field).pyEq (st.sumBy .byHostname field) := by
  obtain ⟨counts, hcounts, hsmall⟩ := hsmall
  have hboth := h.counts_sumBy hreport hst hname hfield (fun k r hr => hcounts k r hr i) (hsmall i)
  exact (hboth .byProgname).pyEq (hboth .byHostname) (hsmall i)

/-- The process records count one each. -/
theorem Reportable.smallCounts (h : Reportable t s) : SmallCounts (s.swept t .process) := by
  refine ⟨fun _ _ => 1, fun k r hr i x hx => ?_, fun _ => ?_⟩
  · have hmem : x ∈ [(1 : Number)] := (h.proper .process k r hr).full ▸ List.mem_of_getElem? hx
    rw [List.mem_singleton.mp hmem]
    exact Or.inl rfl
  · have hlength : (s.swept t .process).bucket.keys.length = _ := List.length_map ..
    rw [List.map_const', List.sum_replicate, smul_eq_mul, mul_one, hlength]
    exact h.processes

/-- **Everything is delivered**, whatever the order. -/
theorem Reportable.deliver (h : Reportable t s) {order : List (Values Number × ℤ)}
    (horder : (order.map Prod.fst).Perm (summarize t s).1.values)
    (hinterval : ∀ p ∈ order, 0 < p.2 ∧ p.2 < 2 ^ 63) :
    ∃ (ms : List (Message Number)) (st : Stat),
      (order.map fun p => relay { p.1 with interval := p.2 }) =
        (ms.map fun m => some (.ok (some m))) ∧
      ms.forM Stat.update {} = .ok () st ∧ Relayed t s ms ∧ Stat.Delivered ms st := by
  have harrives : ∀ p : { p // p ∈ order }, ∃ m,
      relay { p.1.1 with interval := p.1.2 } = some (.ok (some m)) ∧
        ∃ τ g c i field, Arrives t s τ g c i field p.1.1 m := fun p =>
    h.exists_arrives (horder.subset (List.mem_map_of_mem p.2)) (hinterval p.1 p.2).1
      (hinterval p.1 p.2).2
  choose message hrelay hmessage using harrives
  have hmem : ∀ v, v ∈ (summarize t s).1.values ↔ ∃ p : { p // p ∈ order }, p.1.1 = v := by
    intro v
    rw [← horder.mem_iff, List.mem_map]
    exact ⟨fun ⟨p, hp, hv⟩ => ⟨⟨p, hp⟩, hv⟩, fun ⟨p, hv⟩ => ⟨p.1, p.2, hv⟩⟩
  have hrelayed : Relayed t s (order.attach.map message) := by
    refine ⟨fun v hv => ?_, fun m hm => ?_⟩
    · obtain ⟨p, rfl⟩ := (hmem v).mp hv
      exact ⟨message p, List.mem_map_of_mem (List.mem_attach order p), hmessage p⟩
    · obtain ⟨p, -, rfl⟩ := List.mem_map.mp hm
      exact ⟨p.1.1, (hmem _).mpr ⟨p, rfl⟩, hmessage p⟩
  have hvalues : ∀ m ∈ order.attach.map message, m.values ≠ [] := by
    intro m hm
    obtain ⟨v, -, τ, g, c, i, field, harrives⟩ := hrelayed.received m hm
    obtain ⟨x, -, -, hx⟩ := harrives.values
    rw [hx]
    exact List.cons_ne_nil _ _
  -- different values are about different things, so their messages are
  have hnodup : ((order.attach.map message).map Stat.subject).Nodup := by
    have hpairwise : (order.map Prod.fst).Pairwise fun v w => subjectOf v ≠ subjectOf w :=
      (horder.pairwise_iff fun h => Ne.symm h).mpr h.pairwise
    rw [← List.attach_map_subtype_val order, List.map_map, List.pairwise_map] at hpairwise
    rw [List.Nodup, List.pairwise_map, List.pairwise_map]
    refine hpairwise.imp fun {p q} hne => ?_
    obtain ⟨τ, g, c, i, field, hp⟩ := hmessage p
    obtain ⟨τ', g', c', i', field', hq⟩ := hmessage q
    exact hp.subject_ne hq hne
  obtain ⟨st, hforM, hst⟩ := Stat.delivered_forM hvalues hnodup
  refine ⟨order.attach.map message, st, ?_, hforM, hrelayed, hst⟩
  rw [List.map_map, ← List.attach_map_val (l := order)]
  exact List.map_congr_left fun p _ => hrelay p

end Display

/-- What `update_host_stats` makes of the programs is what the rows of the hosts say. -/
structure HostsAgree (st : Stat) : Prop where
  hosts : st.updateHostStats.hostCount = st.hosts.items.length
  processes : st.updateHostStats.processCount.pyEq (st.sumBy .byHostname "numprocs")

/-- So it is with the pools. -/
structure PoolsAgree (st : Stat) : Prop where
  connections : st.updateHostStats.connectionCount.pyEq (st.sumBy .byHostname "connections")
  checkouts : st.updateHostStats.checkoutCount.pyEq (st.sumBy .byHostname "checkedout")

/-- **The view of connmon agrees with the summary of the receiver**, in any order of
delivery and with any intervals that fit on the wire. -/
theorem view_agrees {ops : List (Op Number)} (hclient : ∀ m, .setStats m ∈ ops → FromClient m)
    {t : ℚ} (ht : 0 < t) (hlong : pyInt t < 2 ^ 63)
    (hraised : (summarize t (run ops)).1.raised = none)
    (hsums : ∀ v ∈ (summarize t (run ops)).1.values, v.type = some "derive" → ∀ n,
      v.values = [.int n] → -2 ^ 63 ≤ n ∧ n < 2 ^ 63)
    (hprocesses : ((summarize t (run ops)).2.buckets .process).bucket.items.length < 2 ^ 53)
    {order : List (Values Number × ℤ)}
    (horder : (order.map Prod.fst).Perm (summarize t (run ops)).1.values)
    (hinterval : ∀ p ∈ order, 0 < p.2 ∧ p.2 < 2 ^ 63) :
    ∃ (ms : List (Message Number)) (st : Stat),
      (order.map fun p => relay { p.1 with interval := p.2 }) =
        (ms.map fun m => some (.ok (some m))) ∧
      ms.forM Stat.update {} = .ok () st ∧ Agrees (summarize t (run ops)).1.values st ∧
      HostsAgree st ∧
      (SmallCounts ((summarize t (run ops)).2.buckets .pool) → PoolsAgree st) := by
  have hsummary := summarize_of_raised (filed_run ops) hraised
  have hreport : Reportable t (run ops) := by
    refine ⟨filed_run ops, fun σ => ((reaches_run ops).proper hclient σ).visit t none, hraised, ?_,
      hsums, ?_⟩
    · exact ⟨(by norm_num : (-2 ^ 63 : ℤ) ≤ 0).trans (pyInt_nonneg ht.le), hlong⟩
    · rw [hsummary] at hprocesses
      exact hprocesses
  obtain ⟨ms, st, hrelay, hforM, hrelayed, hst⟩ := hreport.deliver horder hinterval
  refine ⟨ms, st, hrelay, hforM, hrelayed.agrees hst, ⟨?_, ?_⟩, fun hpool => ?_⟩
  · exact hrelayed.hostCount_eq hreport hst
  · show (st.sumRows fun hostprog => hostprog.shown "numprocs").pyEq _
    rw [Stat.sumRows_eq]
    exact hrelayed.sums_agree (i := 0) hreport hst rfl (by decide) hreport.smallCounts
  · rw [hsummary] at hpool
    constructor
    · show (st.sumRows fun hostprog => hostprog.shown "connections").pyEq _
      rw [Stat.sumRows_eq]
      exact hrelayed.sums_agree (i := 4) hreport hst rfl (by decide) hpool
    · show (st.sumRows fun hostprog => hostprog.shown "checkedout").pyEq _
      rw [Stat.sumRows_eq]
      exact hrelayed.sums_agree (i := 1) hreport hst rfl (by decide) hpool

/-- The pool of one process, with three connections. -/
def onePool (time interval : ℚ) : Message Number :=
  ⟨"sqlalchemy_pool", "1:aa", "sqlalchemy", "web", "a", time, interval,
    [1, 1, 2, 0, 3].map fun n => .float (Float.nearest n)⟩

theorem fromClient_onePool (time interval : ℚ) : FromClient (onePool time interval) := by
  refine ⟨.pool, by decide, rfl, ?_⟩
  exact ⟨(by decide +kernel : Encodable "a"), (by decide +kernel : Encodable "web"),
    (by decide +kernel : Encodable "sqlalchemy"), (by decide : "web" ≠ "host"),
    [1, 1, 2, 0, 3].map fun n => Float.nearest n, rfl, rfl⟩

/-- What is emitted for it, for connmon to be sent with an interval of 10. -/
def onePoolOrder : List (Values Number × ℤ) :=
  (summarize 105 (run [.setStats (onePool 100 10)])).1.values.map fun v => (v, 10)

theorem view_agrees_onePool : ∃ (ms : List (Message Number)) (st : Stat),
    (onePoolOrder.map fun p => relay { p.1 with interval := p.2 }) =
      (ms.map fun m => some (.ok (some m))) ∧
    ms.forM Stat.update {} = .ok () st ∧
    Agrees (summarize 105 (run [.setStats (onePool 100 10)])).1.values st ∧ HostsAgree st ∧
    (SmallCounts ((summarize 105 (run [.setStats (onePool 100 10)])).2.buckets .pool) →
      PoolsAgree st) := by
  have hclient : ∀ m, .setStats m ∈ [Op.setStats (onePool 100 10)] → FromClient m := by
    intro m hm
    obtain rfl : m = onePool 100 10 := by simpa using hm
    exact fromClient_onePool 100 10
  have hcounts : ∀ v ∈ (summarize 105 (run [.setStats (onePool 100 10)])).1.values,
      v.type = some "count" := by decide +kernel
  refine view_agrees hclient (by norm_num) (by decide +kernel) (by decide +kernel) ?_
    (by decide +kernel) ?_ ?_
  · intro v hv htype
    rw [hcounts v hv] at htype
    exact absurd htype (by decide)
  · rw [onePoolOrder, List.map_map, Function.comp_def, List.map_id']
  · intro p hp
    obtain ⟨v, -, rfl⟩ := List.mem_map.mp hp
    norm_num

/-- **An interval or a time of 64 bits cannot be packed**: the summary is fine, but
every one of its values is refused on the way to connmon. -/
theorem view_too_long :
    (FromClient (onePool 100 10) ∧
      (summarize 105 (run [.setStats (onePool 100 10)])).1.raised = none ∧
      (summarize 105 (run [.setStats (onePool 100 10)])).1.values ≠ [] ∧
      ∀ v ∈ (summarize 105 (run [.setStats (onePool 100 10)])).1.values,
        relay { v with interval := (2 ^ 63 : ℤ) } = some (.error .structError)) ∧
    (FromClient (onePool (2 ^ 63 - 5) 10) ∧
      (summarize (2 ^ 63) (run [.setStats (onePool (2 ^ 63 - 5) 10)])).1.raised = none ∧
      (summarize (2 ^ 63) (run [.setStats (onePool (2 ^ 63 - 5) 10)])).1.values ≠ [] ∧
      ∀ v ∈ (summarize (2 ^ 63) (run [.setStats (onePool (2 ^ 63 - 5) 10)])).1.values,
        relay { v with interval := 10 } = some (.error .structError)) := by
  exact ⟨⟨fromClient_onePool _ _, by decide +kernel, by decide +kernel, by decide +kernel⟩,
    fromClient_onePool _ _, by decide +kernel, by decide +kernel, by decide +kernel⟩

end SqlalchemyCollectd
