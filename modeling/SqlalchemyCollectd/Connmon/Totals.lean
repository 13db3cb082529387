import SqlalchemyCollectd.Connmon.Relay
import SqlalchemyCollectd.Connmon.Rows
import SqlalchemyCollectd.Server.Growth

/-!
# SqlalchemyCollectd.Connmon.Totals

Reported totals and the growth that connmon makes of them.

collectd's `DERIVE` type and connmon's rates both take it that a total never goes
backwards. That is so as long as no process of the row loses its record between two
summaries (`totals_never_go_back`), and it is not so otherwise: when a process goes
silent, its whole history disappears from the sum (`totals_go_back`).
-/

namespace SqlalchemyCollectd

open Receiver TimeBucket

/-- Everything a summary yields is labelled. -/
theorem labelled_of_mem_summarize {t : ℚ} {s : Receiver Number}
    (hfiled : ∀ σ, Filed σ (s.buckets σ)) {v : Values Number}
    (hv : v ∈ (summarize t s).1.values) :
    ∃ τ g c field x, c ∈ (((summarize t s).2.buckets τ).rows g) ∧
      Labelled τ (ofLex c).1 (ofLex c).2 field t x v := by
  obtain ⟨⟨τ, g⟩, -, hv⟩ := mem_summarizePasses hfiled hv
  obtain ⟨c, hc, hrow⟩ := List.mem_flatMap.mp hv
  have hfiled' : Filed τ ((summarize t s).2.buckets τ) :=
    summarize_preserves (P := Filed) (fun _ _ hb => filed_visit hb t none) hfiled τ
  obtain ⟨hhost, hprogram⟩ := Prod.mk.inj (labelOf_of_mem hfiled' hrow)
  obtain ⟨_, field, xs, -, -, htype, hfield, htime, hvalues⟩ := exists_field_of_mem_rowValues hrow
  exact ⟨τ, g, c, field, pySum xs, hc, htype, hhost, hprogram, hfield, htime, hvalues⟩

/-- **Reported totals never go back** between two summaries, if no operation from the
first to the second takes anything away from the totals of the row: the sums grow, and
so does what connmon makes of two such values in a row of its display. -/
theorem totals_never_go_back {before between : List (Op Number)} {t₁ t₂ : ℚ}
    {host program : String} (ht : t₁ ≤ t₂)
    (hcounters : Counters (before ++ [.summarize t₁] ++ (between ++ [.summarize t₂])))
    (hname : program = "host" → ∀ m,
      .setStats m ∈ before ++ [.summarize t₁] ++ (between ++ [.summarize t₂]) →
        m.host = host → m.pluginInstance ≠ "host")
    (hkeeps : ∀ pre op, pre ++ [op] <+: between ++ [.summarize t₂] →
      Keeps (InRow host program) (run (before ++ [.summarize t₁] ++ pre)) op)
    {v₁ v₂ : Values Number} (hv₁ : v₁ ∈ (summarize t₁ (run before)).1.values)
    (hv₂ : v₂ ∈ (summarize t₂ (run (before ++ [.summarize t₁] ++ between))).1.values)
    (htype₁ : v₁.type = some "derive") (htype₂ : v₂.type = some "derive")
    (hlabel₁ : labelOf v₁ = (some host, some program))
    (hlabel₂ : labelOf v₂ = (some host, some program))
    (hinstance : v₁.typeInstance = v₂.typeInstance) :
    (∃ x₁ x₂ : ℤ, v₁.values = [.int x₁] ∧ v₂.values = [.int x₂] ∧ x₁ ≤ x₂) ∧
      ∀ (i₁ i₂ : ℤ) (m₁ m₂ : Message Number),
        relay { v₁ with interval := i₁ } = some (.ok (some m₁)) →
        relay { v₂ with interval := i₂ } = some (.ok (some m₂)) →
        ∀ row row' : HostProg, row.Holds m₁ → row.NotNegative →
          HostProg.receive m₂ row = .ok () row' → row'.NotNegative := by
  obtain ⟨x₁, x₂, hx₁, hx₂, hle⟩ :=
    totals_le hcounters hname hkeeps hv₁ hv₂ htype₁ htype₂ hlabel₁ hlabel₂ hinstance
  refine ⟨⟨x₁, x₂, hx₁, hx₂, hle⟩, fun i₁ i₂ m₁ m₂ hm₁ hm₂ row row' hholds hrow hreceive => ?_⟩
  obtain ⟨τ₁, g₁, c₁, field₁, y₁, -, hv₁⟩ := labelled_of_mem_summarize (filed_run _) hv₁
  obtain ⟨τ₂, g₂, c₂, field₂, y₂, -, hv₂⟩ := labelled_of_mem_summarize (filed_run _) hv₂
  obtain rfl := InternalType.eq_totals_of_derive (Option.some.inj (hv₁.type.symm.trans htype₁))
  obtain rfl := InternalType.eq_totals_of_derive (Option.some.inj (hv₂.type.symm.trans htype₂))
  obtain rfl : y₁ = .int x₁ := by simpa [hx₁] using hv₁.values.symm
  obtain rfl : y₂ = .int x₂ := by simpa [hx₂] using hv₂.values.symm
  have hcarries₁ := carries_of_relay (v := { v₁ with interval := i₁ }) { hv₁ with } hm₁
  have hcarries₂ := carries_of_relay (v := { v₂ with interval := i₂ }) { hv₂ with } hm₂
  refine hrow.receive hholds ?_ hcarries₁.values hcarries₂.values hle ?_ hreceive
  · rw [hcarries₁.field, hcarries₂.field]
    exact Option.some.inj (hv₁.field.symm.trans (hinstance.trans hv₂.field))
  · rw [hcarries₁.time, hcarries₂.time]
    exact_mod_cast pyInt_mono ht

/-- A history of two messages, each with four whole numbers. -/
theorem counters_of_two {ops : List (Op Number)} {m₁ m₂ : Message Number} (ns₁ ns₂ : List ℤ)
    (hmem : ∀ m, .setStats m ∈ ops → m = m₁ ∨ m = m₂)
    (h₁ : ns₁.length = 4 ∧ m₁.values = ns₁.map .int)
    (h₂ : ns₂.length = 4 ∧ m₂.values = ns₂.map .int)
    (hup : m₁.key = m₂.key → m₁.time ≤ m₂.time → ∀ i, m₁.total i ≤ m₂.total i)
    (hdown : m₂.key = m₁.key → m₂.time ≤ m₁.time → ∀ i, m₂.total i ≤ m₁.total i) :
    Counters ops := by
  refine ⟨fun m hm _ => ?_, fun m m' hm hm' _ _ hkey htime => ?_⟩
  · rcases hmem m hm with rfl | rfl
    · exact ⟨ns₁, h₁⟩
    · exact ⟨ns₂, h₂⟩
  · rcases hmem m hm with rfl | rfl <;> rcases hmem m' hm' with rfl | rfl
    · exact fun _ => le_rfl
    · exact hup hkey htime
    · exact hdown hkey htime
    · exact fun _ => le_rfl

/-- The totals of a process of host `a`, with so many checkouts. -/
def checkoutsOf (token : String) (time : ℚ) (checkouts : ℤ) : Message Number :=
  ⟨"sqlalchemy_totals", token, "sqlalchemy", "web", "a", time, 10,
    [.int checkouts, .int 0, .int 1, .int 0]⟩

/-- What a summary reports about checkouts. -/
def checkoutsReported (time : ℚ) (checkouts : ℤ) : Values Number where
  type := "derive"
  typeInstance := "checkouts"
  plugin := "sqlalchemy"
  pluginInstance := "web"
  host := "a"
  time := time
  interval := 10
  values := [.int checkouts]

theorem totals_never_go_back_oneProcess :
    (∃ x₁ x₂ : ℤ, (checkoutsReported 105 7).values = [.int x₁] ∧
      (checkoutsReported 115 9).values = [.int x₂] ∧ x₁ ≤ x₂) ∧
      ∀ (i₁ i₂ : ℤ) (m₁ m₂ : Message Number),
        relay { checkoutsReported 105 7 with interval := i₁ } = some (.ok (some m₁)) →
        relay { checkoutsReported 115 9 with interval := i₂ } = some (.ok (some m₂)) →
        ∀ row row' : HostProg, row.Holds m₁ → row.NotNegative →
          HostProg.receive m₂ row = .ok () row' → row'.NotNegative := by
  have hmem : ∀ m, Op.setStats m ∈ [Op.setStats (checkoutsOf "1:aa" 100 7)] ++ [Op.summarize 105] ++
      ([Op.setStats (checkoutsOf "1:aa" 110 9)] ++ [Op.summarize 115]) →
        m = checkoutsOf "1:aa" 100 7 ∨ m = checkoutsOf "1:aa" 110 9 := by
    intro m hm
    simpa using hm
  have hcounters : Counters ([Op.setStats (checkoutsOf "1:aa" 100 7)] ++ [Op.summarize 105] ++
      ([Op.setStats (checkoutsOf "1:aa" 110 9)] ++ [Op.summarize 115])) := by
    refine counters_of_two [7, 0, 1, 0] [9, 0, 1, 0] hmem ⟨rfl, rfl⟩ ⟨rfl, rfl⟩
      (fun _ _ i => ?_) (fun _ htime => absurd htime (by norm_num [checkoutsOf]))
    rcases i with _ | i
    · decide
    · exact le_rfl
  have hkeeps : ∀ pre op, pre ++ [op] <+: [Op.setStats (checkoutsOf "1:aa" 110 9)] ++
      [Op.summarize 115] → Keeps (InRow "a" "web")
        (run ([Op.setStats (checkoutsOf "1:aa" 100 7)] ++ [Op.summarize 105] ++ pre)) op := by
    intro pre op hpre
    have honly : ∀ {s : Receiver Number} {m : Message Number},
        (s.buckets .totals).bucket.items = [(m.key, ⟨m.time, m.interval * 2, m⟩)] →
          ∀ k, ∀ r ∈ (s.buckets .totals).bucket.get? k,
            k = m.key ∧ r = ⟨m.time, m.interval * 2, m⟩ := by
      intro s m hitems k r hr
      simpa [hitems] using OrderedDict.mem_items_iff.mpr hr
    rcases pre with _ | ⟨first, _ | ⟨second, pre⟩⟩
    · obtain rfl : op = .setStats (checkoutsOf "1:aa" 110 9) := by simpa using hpre
      have hbucket := honly (m := checkoutsOf "1:aa" 100 7)
        (show ((run ([Op.setStats (checkoutsOf "1:aa" 100 7)] ++ [Op.summarize 105] ++
          [])).buckets .totals).bucket.items = _ by decide +kernel)
      refine fun _ _ => ⟨fun k _ hne r hr => absurd (hbucket k r hr).1 hne, fun _ => ⟨?_, ?_⟩⟩
      · intro r hr
        rw [(hbucket _ r hr).2]
        norm_num [checkoutsOf]
      · exact fun hnone => absurd hnone (by decide +kernel)
    · obtain ⟨rfl, rfl⟩ : first = .setStats (checkoutsOf "1:aa" 110 9) ∧ op = .summarize 115 := by
        simpa using hpre
      have hbucket := honly (m := checkoutsOf "1:aa" 110 9)
        (show ((run ([Op.setStats (checkoutsOf "1:aa" 100 7)] ++ [Op.summarize 105] ++
          [Op.setStats (checkoutsOf "1:aa" 110 9)])).buckets .totals).bucket.items = _
            by decide +kernel)
      intro _ _ k _ r hr
      rw [(hbucket k r hr).2]
      decide +kernel
    · simpa using hpre.length_le
  exact totals_never_go_back (by norm_num) hcounters (fun h => absurd h (by decide)) hkeeps
    (by decide +kernel) (by decide +kernel) rfl rfl rfl rfl rfl

/-- Two processes, the first of which goes silent. -/
def goneSilent : List (Op Number) :=
  [.setStats (checkoutsOf "1:aa" 100 7), .setStats (checkoutsOf "2:bb" 110 5)]

theorem counters_goneSilent : Counters (goneSilent ++ [.summarize 120] ++ [.summarize 130]) := by
  have hmem : ∀ m, .setStats m ∈ goneSilent ++ [.summarize 120] ++ [.summarize 130] →
      m = checkoutsOf "1:aa" 100 7 ∨ m = checkoutsOf "2:bb" 110 5 := by
    intro m hm
    simpa [goneSilent] using hm
  exact counters_of_two [7, 0, 1, 0] [5, 0, 1, 0] hmem ⟨rfl, rfl⟩ ⟨rfl, rfl⟩
    (fun hkey => absurd hkey (by decide)) (fun hkey => absurd hkey (by decide))

/-- **A process that goes silent takes its totals back.** Its record goes stale between
two summaries, and the reported checkouts fall from 12 to 5. -/
theorem totals_go_back : Counters (goneSilent ++ [.summarize 120] ++ [.summarize 130]) ∧
    checkoutsReported 120 12 ∈ (summarize 120 (run goneSilent)).1.values ∧
    checkoutsReported 130 5 ∈
      (summarize 130 (run (goneSilent ++ [.summarize 120]))).1.values :=
  ⟨counters_goneSilent, by decide +kernel, by decide +kernel⟩

end SqlalchemyCollectd
