import SqlalchemyCollectd.Server.Emission

/-!
# SqlalchemyCollectd.Server.Identity

When a summary reports an identity twice.

collectd tells the values of a summary apart by host, plugin instance, type and type
instance. Within a pass these are all different, and so they are across types; what is
left are the two groupings of a type. The row of a whole host is labelled with the
plugin instance `host`, which is also the label of a program of that name, and nothing
reserves it (`identities_distinct_iff`).
-/

namespace SqlalchemyCollectd

namespace Receiver

open TimeBucket

variable {α : Type} [Add α] [Zero α]

/-- What collectd knows a value by. -/
def identity (v : Values α) : Option String × Option String × Option String × Option String :=
  (v.host, v.pluginInstance, v.type, v.typeInstance)

/-- The external type of a value of a summary is settled by the field it is about. -/
theorem identity_eq_iff {t : ℚ} {s : Receiver α} (hfiled : ∀ σ, Filed σ (s.buckets σ))
    (hraised : (summarize t s).1.raised = none) {v w : Values α}
    (hv : v ∈ (summarize t s).1.values) (hw : w ∈ (summarize t s).1.values) :
    identity v = identity w ↔ subjectOf v = subjectOf w := by
  constructor
  · intro h
    simp only [identity, Prod.mk.injEq] at h
    obtain ⟨hhost, hinstance, -, hfield⟩ := h
    simp only [subjectOf, labelOf, hhost, hinstance, hfield]
  · intro h
    obtain ⟨σ, g, hv⟩ := (mem_summarize hfiled hraised).mp hv
    obtain ⟨τ, g', hw⟩ := (mem_summarize hfiled hraised).mp hw
    obtain ⟨_, _, _, hv, -⟩ := (mem_passValues (filed_swept hfiled t σ)).mp hv
    obtain ⟨_, _, _, hw, -⟩ := (mem_passValues (filed_swept hfiled t τ)).mp hw
    obtain ⟨rfl, -, -⟩ := hv.eq_of_subject hw h
    simp only [subjectOf, labelOf, Prod.mk.injEq] at h
    obtain ⟨⟨hhost, hinstance⟩, hfield⟩ := h
    simp only [identity, hhost, hinstance, hfield, hv.type, hw.type]

section Meeting

variable {t : ℚ} {τ : InternalType} {b : TimeBucket ProcessKey (Message α)}

/-- **The two groupings of a type meet** in the row of a program `host`, unless a
record without any values keeps the row of its host empty. -/
theorem groupings_meet_iff (hfiled : Filed τ b) :
    (∃ v ∈ passValues t τ .byProgname b, ∃ w ∈ passValues t τ .byHostname b,
      subjectOf v = subjectOf w) ↔
    ∃ k, (b.bucket.get? k).isSome ∧ k.progname = "host" ∧
      ∀ k' r', b.bucket.get? k' = some r' → k'.hostname = k.hostname → r'.value.values ≠ [] := by
  constructor
  · rintro ⟨v, hv, w, hw, hsubject⟩
    obtain ⟨c, i, field, hv, -⟩ := (mem_passValues hfiled).mp hv
    obtain ⟨c', i', field', hw, -⟩ := (mem_passValues hfiled).mp hw
    obtain ⟨-, rfl, rfl⟩ := hv.eq_of_subject hw hsubject
    obtain ⟨k, hk, hrow⟩ := mem_rows.mp hv.row
    obtain ⟨k₂, -, hrow₂⟩ := mem_rows.mp hw.row
    have hlabel : k.hostname = k₂.hostname ∧ k.progname = "host" := by
      rw [← hrow₂, Grouping.row, Grouping.row, toLex_inj, Prod.mk.injEq] at hrow
      exact hrow
    refine ⟨k, hk, hlabel.2, fun k' r' hr' hhost hempty => ?_⟩
    -- the row of the host has a field, so every record of the host has a value for it
    have hmem : r'.value ∈ b.rowRecords .byHostname c := by
      refine mem_rowRecords.mpr ⟨k', r', hr', ?_, rfl⟩
      rw [← hrow₂, Grouping.row_eq_iff]
      exact ⟨hhost.trans hlabel.1, rfl⟩
    have hvalue := hw.complete _ hmem
    rw [hempty] at hvalue
    cases hvalue
  · rintro ⟨k, hk, hprogname, hvalues⟩
    obtain ⟨field, hfield⟩ : ∃ field, τ.toType.names[0]? = some field := by
      cases τ <;> exact ⟨_, rfl⟩
    have hcomplete : ∀ g, g.row k = toLex (k.hostname, "host") →
        ∀ m ∈ b.rowRecords g (toLex (k.hostname, "host")), (m.values[0]?).isSome := by
      intro g hg m hm
      obtain ⟨k', r', hr', hrow', rfl⟩ := mem_rowRecords.mp hm
      rw [← hg, Grouping.row_eq_iff] at hrow'
      obtain ⟨x, xs, hxs⟩ := List.exists_cons_of_ne_nil (hvalues k' r' hr' hrow'.1)
      rw [hxs]
      rfl
    have hmeets : ∀ g, g.row k = toLex (k.hostname, "host") → ∃ v ∈ passValues t τ g b,
        subjectOf v = (rowLabel (toLex (k.hostname, "host")), some field) := by
      intro g hg
      obtain ⟨v, hv, hemits⟩ := exists_emits (t := t) hfiled (mem_rows.mpr ⟨k, hk, hg⟩) hfield
        (hcomplete g hg)
      exact ⟨v, (mem_passValues hfiled).mpr ⟨_, _, _, hemits, hv⟩, hemits.subject⟩
    obtain ⟨v, hv, hsubject⟩ := hmeets .byProgname
      (congrArg (fun name => toLex (k.hostname, name)) hprogname)
    obtain ⟨w, hw, hsubject'⟩ := hmeets .byHostname rfl
    exact ⟨v, hv, w, hw, hsubject.trans hsubject'.symm⟩

end Meeting

/-- **When no identity is reported twice.** After any run, a summary that does not
raise reports every identity once exactly when, type by type, each host that has a
fresh record of a program named `host` also has one without values, which leaves the
host without a row of its own. -/
theorem identities_distinct_iff [One α] (ops : List (Op α)) (t : ℚ)
    (hraised : (summarize t (run ops)).1.raised = none) :
    (summarize t (run ops)).1.values.Pairwise (fun v w => identity v ≠ identity w) ↔
      ∀ τ k, (((run ops).buckets τ).visible t k).isSome → k.progname = "host" →
        ∃ k' r', ((run ops).buckets τ).visible t k' = some r' ∧ k'.hostname = k.hostname ∧
          r'.value.values = [] := by
  have hfiled := filed_run ops
  have hswept : ∀ τ k, ((run ops).swept t τ).bucket.get? k = ((run ops).buckets τ).visible t k :=
    fun τ k => get?_visit_eq_visible ((acceptsTimes_of_summarize hfiled).mp hraised τ).1 k
  have hidentity : (summarize t (run ops)).1.values.Pairwise (fun v w => identity v ≠ identity w) ↔
      (summarize t (run ops)).1.values.Pairwise fun v w => subjectOf v ≠ subjectOf w :=
    List.Pairwise.iff_of_mem fun hv hw => not_congr (identity_eq_iff hfiled hraised hv hw)
  rw [hidentity, pairwise_summarize hfiled hraised]
  refine forall_congr' fun τ => ?_
  have hmeet := groupings_meet_iff (t := t) (filed_swept hfiled t τ)
  simp only [hswept] at hmeet
  constructor
  · intro hdistinct k hk hprogname
    by_contra hnone
    push Not at hnone
    obtain ⟨v, hv, w, hw, hsubject⟩ := hmeet.mpr ⟨k, hk, hprogname, hnone⟩
    exact hdistinct v hv w hw hsubject
  · intro hempty v hv w hw hsubject
    obtain ⟨k, hk, hprogname, hvalues⟩ := hmeet.mp ⟨v, hv, w, hw, hsubject⟩
    obtain ⟨k', r', hr', hhost, hnil⟩ := hempty k hk hprogname
    exact hvalues k' r' hr' hhost hnil

/-- Two programs on a host, one of which is called `host`. -/
def hostProgram : List (Op Number) :=
  [.setStats ⟨"sqlalchemy_pool", "1:aa", "sqlalchemy", "host", "h1", 1000, 10,
      [.int 1, .int 0, .int 1, .int 0, .int 1]⟩,
    .setStats ⟨"sqlalchemy_pool", "2:bb", "sqlalchemy", "web", "h1", 1000, 10,
      [.int 1, .int 0, .int 2, .int 0, .int 2]⟩]

theorem identities_distinct_iff_hostProgram :
    ¬∀ τ k, (((run hostProgram).buckets τ).visible 1000 k).isSome → k.progname = "host" →
      ∃ k' r', ((run hostProgram).buckets τ).visible 1000 k' = some r' ∧
        k'.hostname = k.hostname ∧ r'.value.values = [] :=
  (not_congr (identities_distinct_iff hostProgram 1000 (by decide +kernel))).mp (by decide +kernel)

/-- The connections of the program and those of the host go by one name. -/
theorem identities_repeat_hostProgram :
    (summarize 1000 (run hostProgram)).1.raised = none ∧
      ¬(summarize 1000 (run hostProgram)).1.values.Pairwise
        (fun v w => identity v ≠ identity w) ∧
      ((summarize 1000 (run hostProgram)).1.values.filter fun v =>
        identity v = (some "h1", some "host", some "count", some "connections")).map
          Values.values = [[.int 1], [.int 3]] :=
  ⟨by decide +kernel, by decide +kernel, by decide +kernel⟩

end Receiver

end SqlalchemyCollectd
